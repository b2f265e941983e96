import LineBasic.Proofs.Expression.Exact
import LineBasic.Proofs.Expression.Grammar

/-!
# The meaning of the parts of expressions

A part of the grammar gives to the tokens of each of its defined trees the value of the tree.
Comparisons and powers are sums and signed primaries grouped to the right, sums and products
are products and powers grouped to the left.
-/

namespace LineBasic.Expression

variable {m : Memory}

/-- The names among the tokens stand for slots. -/
def Named (us : List Token) : Prop :=
  ∀ s, .name s ∈ us → (Slot.ofName? s).isSome

theorem named_append_iff {us vs : List Token} :
  Named (us ++ vs) ↔ Named us ∧ Named vs
  := by
  simp only [Named, List.mem_append]
  constructor
  · intro h
    exact ⟨fun s hs => h s (.inl hs), fun s hs => h s (.inr hs)⟩
  · rintro ⟨hu, hv⟩ s (hs | hs)
    · apply hu s hs
    · apply hv s hs

theorem named_cons_delimiter_iff {d : Delimiter} {us : List Token} :
  Named (.delimiter d :: us) ↔ Named us
  := by
  simp [Named]

/-- The values of the tokens of a defined tree. -/
def Means (m : Memory) (p : Part) : Meaning := fun us x =>
  ∃ a : Tree p, a.tokens = us ∧ a.Defined m ∧ a.value m = x ∧ Named us

theorem Means.ne_nil {p : Part} {us : List Token} {x : Float} (h : Means m p us x) :
  us ≠ []
  := by
  obtain ⟨a, rfl, -⟩ := h
  apply a.tokens_ne_nil

/-! ### Grouping to the left -/

/-- Sums group products to the left. -/
theorem leftward_of_sum :
  ∀ a : Tree .sum, a.Defined m → Named a.tokens →
    ∃ k, Leftward Delimiter.isAdditive (Means m .product) k a.tokens (a.value m)
  | .ofProduct a, ha, hn => ⟨0, .single ⟨a, rfl, ha, rfl, hn⟩⟩
  | .add a d hd b, ⟨ha, hb⟩, hn => by
    obtain ⟨hna, hnb⟩ := named_append_iff.mp hn
    obtain ⟨k, h⟩ := leftward_of_sum a ha hna
    use k + 1
    apply h.step hd ⟨b, rfl, hb, rfl, named_cons_delimiter_iff.mp hnb⟩
    apply value?_of_isAdditive hd

theorem sum_of_leftward {k : Nat} {us : List Token} {x : Float}
    (h : Leftward Delimiter.isAdditive (Means m .product) k us x) :
  Means m .sum us x
  := by
  induction h with
  | single hx =>
    obtain ⟨a, hu, ha, hx, hn⟩ := hx
    exact ⟨.ofProduct a, hu, ha, hx, hn⟩
  | @step _ us vs x y z d _ hd hy hz ih =>
    obtain ⟨a, rfl, ha, rfl, hna⟩ := ih
    obtain ⟨b, rfl, hb, rfl, hnb⟩ := hy
    rw [value?_of_isAdditive hd] at hz
    use .add a d hd b, rfl, ⟨ha, hb⟩, Option.some.inj hz
    exact named_append_iff.mpr ⟨hna, named_cons_delimiter_iff.mpr hnb⟩

theorem means_sum_iff {us : List Token} {x : Float} :
  (∃ k, Leftward Delimiter.isAdditive (Means m .product) k us x) ↔ Means m .sum us x
  := by
  constructor
  · rintro ⟨k, h⟩
    apply sum_of_leftward h
  · rintro ⟨a, rfl, ha, rfl, hn⟩
    apply leftward_of_sum a ha hn

/-- Products group powers to the left. -/
theorem leftward_of_product :
  ∀ a : Tree .product, a.Defined m → Named a.tokens →
    ∃ k, Leftward Delimiter.isMultiplicative (Means m .power) k a.tokens (a.value m)
  | .ofPower a, ha, hn => ⟨0, .single ⟨a, rfl, ha, rfl, hn⟩⟩
  | .multiply a d hd b, ⟨ha, hb, hz⟩, hn => by
    obtain ⟨hna, hnb⟩ := named_append_iff.mp hn
    obtain ⟨k, h⟩ := leftward_of_product a ha hna
    use k + 1
    apply h.step hd ⟨b, rfl, hb, rfl, named_cons_delimiter_iff.mp hnb⟩
    apply (value?_eq_some_iff_of_isMultiplicative hd).mpr ⟨hz, rfl⟩

theorem product_of_leftward {k : Nat} {us : List Token} {x : Float}
    (h : Leftward Delimiter.isMultiplicative (Means m .power) k us x) :
  Means m .product us x
  := by
  induction h with
  | single hx =>
    obtain ⟨a, hu, ha, hx, hn⟩ := hx
    exact ⟨.ofPower a, hu, ha, hx, hn⟩
  | @step _ us vs x y z d _ hd hy hz ih =>
    obtain ⟨a, rfl, ha, rfl, hna⟩ := ih
    obtain ⟨b, rfl, hb, rfl, hnb⟩ := hy
    obtain ⟨hzero, hz⟩ := (value?_eq_some_iff_of_isMultiplicative hd).mp hz
    use .multiply a d hd b, rfl, ⟨ha, hb, hzero⟩, hz
    exact named_append_iff.mpr ⟨hna, named_cons_delimiter_iff.mpr hnb⟩

theorem means_product_iff {us : List Token} {x : Float} :
  (∃ k, Leftward Delimiter.isMultiplicative (Means m .power) k us x) ↔ Means m .product us x
  := by
  constructor
  · rintro ⟨k, h⟩
    apply product_of_leftward h
  · rintro ⟨a, rfl, ha, rfl, hn⟩
    apply leftward_of_product a ha hn

/-! ### Grouping to the right -/

/-- Comparisons group sums to the right. -/
theorem rightward_of_comparison :
  ∀ a : Tree .comparison, a.Defined m → Named a.tokens →
    Rightward Delimiter.isRelational (Means m .sum) a.tokens (a.value m)
  | .ofSum a, ha, hn => .single ⟨a, rfl, ha, rfl, hn⟩
  | .compare a d hd b, ⟨ha, hb⟩, hn => by
    obtain ⟨hna, hnb⟩ := named_append_iff.mp hn
    have h := rightward_of_comparison b hb (named_cons_delimiter_iff.mp hnb)
    apply Rightward.step ⟨a, rfl, ha, rfl, hna⟩ hd h
    apply value?_of_isRelational hd

theorem comparison_of_rightward {us : List Token} {x : Float}
    (h : Rightward Delimiter.isRelational (Means m .sum) us x) :
  Means m .comparison us x
  := by
  induction h with
  | single hx =>
    obtain ⟨a, hu, ha, hx, hn⟩ := hx
    exact ⟨.ofSum a, hu, ha, hx, hn⟩
  | @step us vs x y z d hx hd _ hz ih =>
    obtain ⟨a, rfl, ha, rfl, hna⟩ := hx
    obtain ⟨b, rfl, hb, rfl, hnb⟩ := ih
    rw [value?_of_isRelational hd] at hz
    use .compare a d hd b, rfl, ⟨ha, hb⟩, Option.some.inj hz
    exact named_append_iff.mpr ⟨hna, named_cons_delimiter_iff.mpr hnb⟩

theorem means_comparison_iff {us : List Token} {x : Float} :
  Rightward Delimiter.isRelational (Means m .sum) us x ↔ Means m .comparison us x
  := by
  constructor
  · apply comparison_of_rightward
  · rintro ⟨a, rfl, ha, rfl, hn⟩
    apply rightward_of_comparison a ha hn

/-- Powers group signed primaries to the right. -/
theorem rightward_of_power :
  ∀ a : Tree .power, a.Defined m → Named a.tokens →
    Rightward Delimiter.isCaret (Means m .signed) a.tokens (a.value m)
  | .ofSigned a, ha, hn => .single ⟨a, rfl, ha, rfl, hn⟩
  | .raise a b, ⟨ha, hb⟩, hn => by
    obtain ⟨hna, hnb⟩ := named_append_iff.mp hn
    have h := rightward_of_power b hb (named_cons_delimiter_iff.mp hnb)
    exact .step ⟨a, rfl, ha, rfl, hna⟩ rfl h rfl

theorem power_of_rightward {us : List Token} {x : Float}
    (h : Rightward Delimiter.isCaret (Means m .signed) us x) :
  Means m .power us x
  := by
  induction h with
  | single hx =>
    obtain ⟨a, hu, ha, hx, hn⟩ := hx
    exact ⟨.ofSigned a, hu, ha, hx, hn⟩
  | @step us vs x y z d hx hd _ hz ih =>
    obtain ⟨a, rfl, ha, rfl, hna⟩ := hx
    obtain ⟨b, rfl, hb, rfl, hnb⟩ := ih
    obtain rfl := isCaret_iff.mp hd
    use .raise a b, rfl, ⟨ha, hb⟩, Option.some.inj hz
    exact named_append_iff.mpr ⟨hna, named_cons_delimiter_iff.mpr hnb⟩

theorem means_power_iff {us : List Token} {x : Float} :
  Rightward Delimiter.isCaret (Means m .signed) us x ↔ Means m .power us x
  := by
  constructor
  · apply power_of_rightward
  · rintro ⟨a, rfl, ha, rfl, hn⟩
    apply rightward_of_power a ha hn

end LineBasic.Expression
