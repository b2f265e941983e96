import LineBasic.Fault

/-!
# Memory

Memory holds one number for each letter of the alphabet.  A name stands for the slot of its
first letter, capital or not, whatever follows.
-/

namespace LineBasic

/-- The slots of memory, one for each letter. -/
abbrev Slot :=
  Fin 26

namespace Slot

/-- The slot of a name, if it starts with a letter. -/
def ofName? (name : String) : Option Slot :=
  match name.toList with
  | [] => none
  | c :: _ => if c.isAlpha then some (Fin.ofNat 26 (c.toUpper.toNat - 'A'.toNat)) else none

/-- The slot of a name, or the fault of not being one of a variable. -/
def ofName (name : String) : Except Fault Slot :=
  match ofName? name with
  | some i => .ok i
  | none => .error (Fault.of .notAVariable)

/-- The letter of a slot. -/
def letter (i : Slot) : Char :=
  Char.ofNat ('A'.toNat + i.val)

/-- A letter is one in either case. -/
theorem isUpper_toUpper (c : Char) :
  c.toUpper.isUpper = c.isAlpha
  := by
  by_cases h : 'a'.val ≤ c.val ∧ c.val ≤ 'z'.val
  · have hval : c.toUpper.val = c.val + ('A'.val - 'a'.val) := by
      delta Char.toUpper
      rw [dif_pos h]
    have hlow : 97 ≤ c.val.toNat := h.1
    have hhigh : c.val.toNat ≤ 122 := h.2
    have hshift : ('A'.val - 'a'.val).toNat = 4294967264 := by decide
    have hnat := UInt32.toNat_add c.val ('A'.val - 'a'.val)
    rw [← hval, hshift] at hnat
    have hupper : 65 ≤ c.toUpper.val.toNat ∧ c.toUpper.val.toNat ≤ 90 := by
      omega
    have hlower : c.isLower = true := by
      apply Bool.and_eq_true_iff.mpr
      exact ⟨decide_eq_true h.1, decide_eq_true h.2⟩
    calc c.toUpper.isUpper
        = true := decide_eq_true hupper
      _ = c.isAlpha := by
        symm
        apply Bool.or_eq_true_iff.mpr (.inr hlower)
  · have hupper : c.toUpper = c := dif_neg h
    have hlower : c.isLower = false := by
      apply Bool.eq_false_iff.mpr
      intro hlower
      have hand := Bool.and_eq_true_iff.mp hlower
      apply h
      exact ⟨of_decide_eq_true hand.1, of_decide_eq_true hand.2⟩
    calc c.toUpper.isUpper
        = c.isUpper := by rw [hupper]
      _ = (c.isUpper || c.isLower) := by rw [hlower, Bool.or_false]

/-- A letter is one of 26 once it is made a capital. -/
theorem toNat_toUpper {c : Char} (h : c.isAlpha = true) :
  'A'.toNat ≤ c.toUpper.toNat ∧ c.toUpper.toNat < 'A'.toNat + 26
  := by
  have hupper : c.toUpper.isUpper = true := (isUpper_toUpper c).trans h
  obtain ⟨hlow, hhigh⟩ := of_decide_eq_true hupper
  have hle : c.toUpper.toNat ≤ 'Z'.toNat := hhigh
  exact ⟨hlow, Nat.lt_succ_of_le hle⟩

/-- The slot of a name is how far its first letter, as a capital, is from `A`. -/
theorem letter_of_ofName? {name : String} {i : Slot} (h : ofName? name = some i) :
  ∃ c r, name.toList = c :: r ∧ c.toUpper.toNat = 'A'.toNat + i.val
  := by
  rw [ofName?] at h
  split at h
  · contradiction
  · next c r hname =>
    split at h
    · next hc =>
      cases h
      obtain ⟨hle, hlt⟩ := toNat_toUpper hc
      refine ⟨c, r, hname, ?_⟩
      rw [Fin.val_ofNat, Nat.mod_eq_of_lt (by omega)]
      omega
    · contradiction

end Slot

/-- The numbers in all slots. -/
structure Memory where
  values : Vector Float 26
  deriving DecidableEq

namespace Memory

/-- The memory that holds zero everywhere. -/
def zero : Memory :=
  ⟨Vector.replicate 26 0.0⟩

/-- The number in a slot. -/
def fetch (m : Memory) (i : Slot) : Float :=
  m.values[i]

/-- The memory with the number in one slot replaced. -/
def store (m : Memory) (i : Slot) (x : Float) : Memory :=
  ⟨m.values.set i x⟩

/-- The slots in alphabetical order, each with its number. -/
def toList (m : Memory) : List (Slot × Float) :=
  (List.finRange 26).map fun i => (i, m.fetch i)

/-- Only the slot that is stored to changes. -/
theorem fetch_store (m : Memory) (i j : Slot) (x : Float) :
  (m.store i x).fetch j = if i = j then x else m.fetch j
  := by
  simp [fetch, store, Vector.getElem_set, Fin.ext_iff]

@[simp]
theorem fetch_zero (i : Slot) :
  zero.fetch i = 0.0
  := by
  simp [fetch, zero]

/-- Memories with the same number in every slot are equal. -/
theorem ext {m n : Memory} (h : ∀ i, m.fetch i = n.fetch i) :
  m = n
  := by
  obtain ⟨v⟩ := m
  obtain ⟨w⟩ := n
  congr 1
  apply Vector.ext
  intro i hi
  apply h ⟨i, hi⟩

end Memory

end LineBasic
