import LineBasic.Proofs.Cursor.Advance
import LineBasic.Proofs.Expression.Rule

/-!
# Exact rules

A meaning says which tokens have which values.  A rule is exact for a meaning when it yields
a value just where the tokens read, from the first one on and without the last one, have that
value; the last one is no operator with which the part goes on.  Operands that are grouped to
the left and operands that are grouped to the right have meanings of their own, for which the
rules `Rule.leftward` and `Rule.rightward` are exact if the rule for the operands is.
-/

namespace LineBasic.Expression

open Cursor Program Rule

/-- Which tokens have which values. -/
abbrev Meaning :=
  List Token → Float → Prop

/-- Operands with `k` operators of a kind between them, grouped to the left. -/
inductive Leftward (kind : Delimiter → Bool) (L : Meaning) : (k : Nat) → Meaning
  | single {us : List Token} {x : Float} (hx : L us x) : Leftward kind L 0 us x
  | step {k : Nat} {us vs : List Token} {x y z : Float} {d : Delimiter}
    (hx : Leftward kind L k us x) (hd : kind d = true) (hy : L vs y)
    (hz : d.value? x y = some z) : Leftward kind L (k + 1) (us ++ .delimiter d :: vs) z

/-- Operands with operators of a kind between them, grouped to the right. -/
inductive Rightward (kind : Delimiter → Bool) (L : Meaning) : Meaning
  | single {us : List Token} {x : Float} (hx : L us x) : Rightward kind L us x
  | step {us vs : List Token} {x y z : Float} {d : Delimiter} (hx : L us x)
    (hd : kind d = true) (hy : Rightward kind L vs y) (hz : d.value? x y = some z) :
    Rightward kind L (us ++ .delimiter d :: vs) z

/-- The rule yields the values that `L` gives to the tokens before an operator with which the
part does not go on, if there are no more than `n` of them. -/
structure Exact (r : Rule) (n : Nat) (L : Meaning) (goesOn : Delimiter → Bool) : Prop where
  ne_nil : ∀ {us : List Token} {x : Float}, L us x → us ≠ []
  sound : ∀ {t f : Token} {c c' : Cursor} {x : Float}, r t c = .ok (x, f) c' →
    ∃ ts, L (t :: ts) x ∧ Reads c (ts ++ [f]) c' ∧ f.isOperator goesOn = false
  complete : ∀ {t f : Token} {ts : List Token} {c c' : Cursor} {x : Float}, L (t :: ts) x →
    ts.length < n → Reads c (ts ++ [f]) c' → f.isOperator goesOn = false → r t c = .ok (x, f) c'

variable {kind goesOn : Delimiter → Bool} {L : Meaning} {operand : Rule} {N : Nat}

private theorem isOperator_or {f : Token} (h : f.isOperator kind = false)
    (h' : f.isOperator goesOn = false) :
  f.isOperator (fun d => kind d || goesOn d) = false
  := by
  cases f with
  | delimiter d =>
    rw [Token.isOperator] at h h' ⊢
    rw [h, h', Bool.or_false]
  | name | number | keyword | quoted | endOfLine | endOfProgram => rfl

private theorem isOperator_left {f : Token}
    (h : f.isOperator (fun d => kind d || goesOn d) = false) :
  f.isOperator kind = false ∧ f.isOperator goesOn = false
  := by
  cases f with
  | delimiter d => simpa [Token.isOperator] using h
  | name | number | keyword | quoted | endOfLine | endOfProgram => exact ⟨rfl, rfl⟩

/-- An operator and the operand after it are read after what stands before them. -/
private theorem reads_operator {c c₁ c₂ c₃ : Cursor} {ts us : List Token} {f u : Token}
    {d : Delimiter} (ht : Reads c (ts ++ [.delimiter d]) c₁) (hu : next c₁ = .ok u c₂)
    (hus : Reads c₂ (us ++ [f]) c₃) :
  Reads c (ts ++ .delimiter d :: u :: us ++ [f]) c₃
  := by
  have h : ts ++ .delimiter d :: u :: us ++ [f] = (ts ++ [.delimiter d]) ++ (u :: (us ++ [f])) := by
    simp
  rw [h]
  apply reads_append_iff.mpr
  use c₁, ht
  apply Reads.cons hu hus

/-- Where an operator and an operand are read, they can be taken apart from what stands
before them. -/
private theorem reads_operator_inv {c c₃ : Cursor} {ts us : List Token} {f u : Token}
    {d : Delimiter} (h : Reads c (ts ++ .delimiter d :: u :: us ++ [f]) c₃) :
  ∃ c₁ c₂, Reads c (ts ++ [.delimiter d]) c₁ ∧ next c₁ = .ok u c₂ ∧ Reads c₂ (us ++ [f]) c₃
  := by
  have heq : ts ++ .delimiter d :: u :: us ++ [f] = (ts ++ [.delimiter d]) ++ (u :: (us ++ [f])) := by
    simp
  rw [heq] at h
  obtain ⟨c₁, ht, h⟩ := reads_append_iff.mp h
  obtain ⟨c₂, hu, hus⟩ := reads_cons_iff.mp h
  exact ⟨c₁, c₂, ht, hu, hus⟩

/-! ### Operands grouped to the left -/

theorem Leftward.ne_nil {k : Nat} {us : List Token} {x : Float}
    (hL : ∀ {us : List Token} {x : Float}, L us x → us ≠ []) (h : Leftward kind L k us x) :
  us ≠ []
  := by
  cases h with
  | single hx => apply hL hx
  | step => simp

/-- There are fewer operators than tokens. -/
theorem Leftward.lt_length {k : Nat} {us : List Token} {x : Float}
    (hL : ∀ {us : List Token} {x : Float}, L us x → us ≠ []) (h : Leftward kind L k us x) :
  k < us.length
  := by
  induction h with
  | single hx =>
    apply List.length_pos_iff.mpr
    apply hL hx
  | step _ _ _ _ ih =>
    rw [List.length_append, List.length_cons]
    omega

/-- A chain adds operands to the ones that have been read. -/
theorem Exact.chain_sound (h : Exact operand N L goesOn) {n k : Nat} {t f g : Token}
    {ts : List Token} {c c₁ c' : Cursor} {x z : Float} (hx : Leftward kind L k (t :: ts) x)
    (hts : Reads c (ts ++ [f]) c₁) (hf : f.isOperator goesOn = false)
    (hz : chain kind operand n (x, f) c₁ = .ok (z, g) c') :
  ∃ l us, Leftward kind L l (t :: us) z ∧ Reads c (us ++ [g]) c'
    ∧ g.isOperator (fun d => kind d || goesOn d) = false
  := by
  induction n generalizing k ts f x c₁ with
  | zero => apply absurd hz fail_ne_ok
  | succ n ih =>
    rcases chain_eq_ok_iff.mp hz with ⟨d, ⟨y, f₁⟩, c₃, rfl, hd, hy, hz⟩ | ⟨hk, heq, rfl⟩
    · obtain ⟨u, c₂, y₁, hu, hy₁, hv⟩ := apply_eq_ok_iff.mp hy
      obtain ⟨us, hL, hus, hf₁⟩ := h.sound hy₁
      apply ih (hx.step hd hL hv) _ hf₁ hz
      apply reads_operator hts hu hus
    · cases heq
      exact ⟨k, ts, hx, hts, isOperator_or hk hf⟩

/-- Operands that are grouped to the left are read up to where the chain is to go on. -/
theorem Exact.leftward_eq_chain (h : Exact operand N L goesOn)
    (hdisjoint : ∀ d, kind d = true → goesOn d = false) {k : Nat} {t f : Token}
    {ts : List Token} {c c' : Cursor} {x : Float} (hx : Leftward kind L k (t :: ts) x)
    (hN : ts.length < N) (hts : Reads c (ts ++ [f]) c') (hf : f.isOperator goesOn = false)
    (j : Nat) :
  leftward kind operand (j + k) t c = chain kind operand j (x, f) c'
  := by
  generalize hus : t :: ts = us at hx
  induction hx generalizing ts f c' j with
  | single hx =>
    subst hus
    rw [leftward, bind_of_ok (h.complete hx hN hts hf)]
    rfl
  | @step k us vs x y z d hx hd hy hz ih =>
    obtain ⟨t', us, rfl⟩ := List.exists_cons_of_ne_nil (hx.ne_nil h.ne_nil)
    obtain ⟨u, vs, rfl⟩ := List.exists_cons_of_ne_nil (h.ne_nil hy)
    rw [List.cons_append, List.cons.injEq] at hus
    obtain ⟨rfl, rfl⟩ := hus
    obtain ⟨c₁, c₂, hus, hu, hvs⟩ := reads_operator_inv hts
    simp only [List.length_append, List.length_cons] at hN
    have hc := ih (by omega) hus (hdisjoint d hd) (j + 1) rfl
    have hop : operand.apply d x c₁ = .ok (z, f) c' :=
      apply_eq_ok_iff.mpr ⟨u, c₂, y, hu, h.complete hy (by omega) hvs hf, hz⟩
    rw [Nat.add_assoc, Nat.add_comm 1 k] at hc
    rw [hc, chain, if_pos hd, bind_of_ok hop]

/-- The rule for operands grouped to the left is exact for them. -/
theorem Exact.leftward (kind : Delimiter → Bool) (h : Exact operand N L goesOn)
    (hdisjoint : ∀ d, kind d = true → goesOn d = false) {n : Nat} (hn : n ≤ N) :
  Exact (leftward kind operand n) n (fun us x => ∃ k, Leftward kind L k us x)
    (fun d => kind d || goesOn d) where
  ne_nil := by
    rintro us x ⟨k, hx⟩
    apply hx.ne_nil h.ne_nil
  sound := by
    intro t f c c' x hx
    obtain ⟨⟨y, g⟩, c₁, hy, hx⟩ := leftward_eq_ok_iff.mp hx
    obtain ⟨ts, hL, hts, hg⟩ := h.sound hy
    obtain ⟨l, us, hl, hus, hf⟩ := h.chain_sound (.single hL) hts hg hx
    exact ⟨us, ⟨l, hl⟩, hus, hf⟩
  complete := by
    rintro t f ts c c' x ⟨k, hx⟩ hlt hts hf
    obtain ⟨hk, hf⟩ := isOperator_left hf
    have hlen := hx.lt_length h.ne_nil
    rw [List.length_cons] at hlen
    obtain ⟨j, rfl⟩ : ∃ j, n = (j + 1) + k := ⟨n - 1 - k, by omega⟩
    rw [h.leftward_eq_chain hdisjoint hx (by omega) hts hf]
    apply chain_eq_ok_iff.mpr
    exact .inr ⟨hk, rfl, rfl⟩

/-! ### Operands grouped to the right -/

theorem Rightward.ne_nil {us : List Token} {x : Float}
    (hL : ∀ {us : List Token} {x : Float}, L us x → us ≠ []) (h : Rightward kind L us x) :
  us ≠ []
  := by
  cases h with
  | single hx => apply hL hx
  | step => simp

/-- What the rule for operands grouped to the right has read is grouped to the right. -/
theorem Exact.rightward_sound (h : Exact operand N L goesOn) {n : Nat} {t f : Token}
    {c c' : Cursor} {x : Float} (hx : rightward kind operand n t c = .ok (x, f) c') :
  ∃ ts, Rightward kind L (t :: ts) x ∧ Reads c (ts ++ [f]) c'
    ∧ f.isOperator (fun d => kind d || goesOn d) = false
  := by
  induction n generalizing t c x with
  | zero => apply absurd hx fail_ne_ok
  | succ n ih =>
    obtain ⟨y, u, c₁, hy, ⟨d, rfl, hd, hx⟩ | ⟨hk, heq, rfl⟩⟩ := rightward_eq_ok_iff.mp hx
    · obtain ⟨ts, hL, hts, -⟩ := h.sound hy
      obtain ⟨v, c₂, z, hv, hz, hval⟩ := apply_eq_ok_iff.mp hx
      obtain ⟨us, hR, hus, hf⟩ := ih hz
      exact ⟨ts ++ .delimiter d :: v :: us, .step hL hd hR hval, reads_operator hts hv hus, hf⟩
    · cases heq
      obtain ⟨ts, hL, hts, hg⟩ := h.sound hy
      exact ⟨ts, .single hL, hts, isOperator_or hk hg⟩

/-- Operands grouped to the right are read by the rule for them. -/
theorem Exact.rightward_complete (h : Exact operand N L goesOn)
    (hdisjoint : ∀ d, kind d = true → goesOn d = false) {n : Nat} (hn : n ≤ N)
    {t f : Token} {ts : List Token} {c c' : Cursor} {x : Float}
    (hx : Rightward kind L (t :: ts) x) (hlt : ts.length < n) (hts : Reads c (ts ++ [f]) c')
    (hk : f.isOperator kind = false) (hf : f.isOperator goesOn = false) :
  rightward kind operand n t c = .ok (x, f) c'
  := by
  generalize hus : t :: ts = us at hx
  induction hx generalizing n t ts c with
  | single hx =>
    subst hus
    obtain ⟨n, rfl⟩ := Nat.exists_eq_add_one_of_ne_zero (Nat.ne_zero_of_lt hlt)
    apply rightward_eq_ok_iff.mpr
    exact ⟨_, f, c', h.complete hx (by omega) hts hf, .inr ⟨hk, rfl, rfl⟩⟩
  | @step us vs x y z d hx hd hy hz ih =>
    obtain ⟨t', us, rfl⟩ := List.exists_cons_of_ne_nil (h.ne_nil hx)
    obtain ⟨u, vs, rfl⟩ := List.exists_cons_of_ne_nil (hy.ne_nil h.ne_nil)
    rw [List.cons_append, List.cons.injEq] at hus
    obtain ⟨rfl, rfl⟩ := hus
    obtain ⟨c₁, c₂, hus, hu, hvs⟩ := reads_operator_inv hts
    simp only [List.length_append, List.length_cons] at hlt
    obtain ⟨n, rfl⟩ := Nat.exists_eq_add_one_of_ne_zero (Nat.ne_zero_of_lt hlt)
    have hx' := h.complete hx (by omega) hus (hdisjoint d hd)
    have hy' := ih (n := n) (by omega) (by omega) hvs rfl
    apply rightward_eq_ok_iff.mpr
    use x, .delimiter d, c₁, hx'
    exact .inl ⟨d, rfl, hd, apply_eq_ok_iff.mpr ⟨u, c₂, y, hu, hy', hz⟩⟩

/-- The rule for operands grouped to the right is exact for them. -/
theorem Exact.rightward (kind : Delimiter → Bool) (h : Exact operand N L goesOn)
    (hdisjoint : ∀ d, kind d = true → goesOn d = false) {n : Nat} (hn : n ≤ N) :
  Exact (rightward kind operand n) n (Rightward kind L) (fun d => kind d || goesOn d) where
  ne_nil hx := hx.ne_nil h.ne_nil
  sound hx := h.rightward_sound hx
  complete hx hlt hts hf :=
    h.rightward_complete hdisjoint hn hx hlt hts (isOperator_left hf).1 (isOperator_left hf).2

end LineBasic.Expression
