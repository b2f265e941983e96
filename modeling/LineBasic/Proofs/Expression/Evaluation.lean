import LineBasic.Proofs.Expression.Meaning

/-!
# Evaluation

The rules of the parts of an expression are exact for the derivation trees of the parts, as
long as they may come back to themselves often enough.  An expression has no more tokens than
there are characters, so the limit that `Reading.evaluate` sets is never met.  Hence it yields
a value just where the grammar has a defined tree, followed by a token that is no operator,
and the value is the one of the tree.
-/

namespace LineBasic.Expression

open Cursor Program Rule

variable {m : Memory} {nested : Rule} {n : Nat}

/-! ### The rules for the parts -/

theorem Exact.congr {r : Rule} {L L' : Meaning} {goesOn goesOn' : Delimiter → Bool}
    (h : Exact r n L goesOn) (hL : ∀ us x, L us x ↔ L' us x)
    (hg : ∀ d, goesOn d = goesOn' d) :
  Exact r n L' goesOn'
  := by
  obtain rfl : L = L' := by
    funext us x
    apply propext
    apply hL
  obtain rfl : goesOn = goesOn' := by
    funext d
    apply hg
  apply h

/-- A primary is a number, a name or a comparison in parentheses. -/
theorem exact_factor (h : Exact nested n (Means m .comparison) Part.comparison.goesOn) :
  Exact (factor m nested) (n + 2) (Means m .primary) Part.primary.goesOn where
  ne_nil := Means.ne_nil
  sound := by
    intro t f c c' x hx
    rcases factor_eq_ok_iff.mp hx with ⟨rfl, u, c₁, c₂, hu, hnested, hf⟩ | ⟨-, hx⟩
    · obtain ⟨ts, ⟨a, ha, hdef, hval, hn⟩, hts, -⟩ := h.sound hnested
      use u :: ts ++ [.delimiter .closeParen]
      and_intros
      · use .parenthesized a
        rw [Tree.tokens, ha]
        use rfl, hdef, hval
        rw [named_cons_delimiter_iff, named_append_iff]
        use hn
        simp [Named]
      · apply reads_append_iff.mpr
        use c₂, Reads.cons hu hts
        apply reads_singleton_iff.mpr hf
      · cases f <;> rfl
    · obtain ⟨hf, ⟨s, rfl, hs⟩ | ⟨s, i, rfl, hs, rfl⟩⟩ := atom_eq_ok_iff.mp hx
      · use []
        and_intros
        · use .number s, rfl
          simp [Tree.Defined, Tree.value, hs, Named]
        · apply reads_singleton_iff.mpr hf
        · cases f <;> rfl
      · use []
        and_intros
        · use .name s, rfl
          simp [Tree.Defined, Tree.value, hs, Named]
        · apply reads_singleton_iff.mpr hf
        · cases f <;> rfl
  complete := by
    rintro t f ts c c' x ⟨a, ha, hdef, rfl, hn⟩ hlt hts -
    cases a with
    | parenthesized a =>
      obtain ⟨u, us, hus⟩ := List.exists_cons_of_ne_nil a.tokens_ne_nil
      rw [Tree.tokens, List.cons.injEq] at ha
      obtain ⟨rfl, rfl⟩ := ha
      rw [hus] at hts hn hlt
      rw [named_cons_delimiter_iff, named_append_iff] at hn
      obtain ⟨c₂, hts, hf⟩ := reads_append_iff.mp hts
      obtain ⟨c₁, hu, hts⟩ := reads_cons_iff.mp hts
      simp only [List.length_append, List.length_cons, List.length_nil] at hlt
      apply factor_eq_ok_iff.mpr
      refine .inl ⟨rfl, u, c₁, c₂, hu, ?_, reads_singleton_iff.mp hf⟩
      exact h.complete ⟨a, hus, hdef, rfl, hn.1⟩ (by omega) hts rfl
    | number s =>
      rw [Tree.tokens, List.cons.injEq] at ha
      obtain ⟨rfl, rfl⟩ := ha
      obtain ⟨x, hx⟩ := Option.isSome_iff_exists.mp hdef
      apply factor_eq_ok_iff.mpr
      refine .inr ⟨by simp, atom_eq_ok_iff.mpr ⟨reads_singleton_iff.mp hts, .inl ⟨s, rfl, ?_⟩⟩⟩
      rw [Tree.value, hx, Option.getD_some]
    | name s =>
      rw [Tree.tokens, List.cons.injEq] at ha
      obtain ⟨rfl, rfl⟩ := ha
      obtain ⟨i, hi⟩ := Option.isSome_iff_exists.mp (hn s (List.mem_singleton.mpr rfl))
      apply factor_eq_ok_iff.mpr
      refine .inr ⟨by simp, atom_eq_ok_iff.mpr ⟨reads_singleton_iff.mp hts, .inr ⟨s, i, rfl, hi, ?_⟩⟩⟩
      rw [Tree.value, hi, Option.map_some, Option.getD_some]

/-- No primary starts with a sign. -/
theorem sign_ne_head_of_primary {d : Delimiter} (hd : d = .minus ∨ d = .plus) {ts : List Token} :
  ∀ a : Tree .primary, a.tokens ≠ .delimiter d :: ts
  | .parenthesized a => by
    rcases hd with rfl | rfl <;> simp [Tree.tokens]
  | .number s => by simp [Tree.tokens]
  | .name s => by simp [Tree.tokens]

/-- A signed primary has one sign at most. -/
theorem exact_signed (h : Exact (factor m nested) (n + 1) (Means m .primary) Part.primary.goesOn) :
  Exact (signed m nested) (n + 1) (Means m .signed) Part.signed.goesOn where
  ne_nil := Means.ne_nil
  sound := by
    intro t f c c' x hx
    obtain ⟨rfl, u, c₁, y, hu, hy, rfl⟩ | ⟨rfl, u, c₁, hu, hx⟩ | ⟨-, -, hx⟩ :=
      signed_eq_ok_iff.mp hx
    · obtain ⟨ts, ⟨a, ha, hdef, rfl, hn⟩, hts, hf⟩ := h.sound hy
      use u :: ts
      and_intros
      · use .minus a
        rw [Tree.tokens, ha]
        exact ⟨rfl, hdef, rfl, named_cons_delimiter_iff.mpr hn⟩
      · apply Reads.cons hu hts
      · apply hf
    · obtain ⟨ts, ⟨a, ha, hdef, rfl, hn⟩, hts, hf⟩ := h.sound hx
      use u :: ts
      and_intros
      · use .plus a
        rw [Tree.tokens, ha]
        exact ⟨rfl, hdef, rfl, named_cons_delimiter_iff.mpr hn⟩
      · apply Reads.cons hu hts
      · apply hf
    · obtain ⟨ts, ⟨a, ha, hdef, rfl, hn⟩, hts, hf⟩ := h.sound hx
      exact ⟨ts, ⟨.ofPrimary a, ha, hdef, rfl, hn⟩, hts, hf⟩
  complete := by
    rintro t f ts c c' x ⟨a, ha, hdef, rfl, hn⟩ hlt hts hf
    apply signed_eq_ok_iff.mpr
    cases a with
    | ofPrimary a =>
      refine .inr (.inr ⟨?_, ?_, h.complete ⟨a, ha, hdef, rfl, hn⟩ hlt hts hf⟩)
      · rintro rfl
        apply sign_ne_head_of_primary (.inl rfl) a ha
      · rintro rfl
        apply sign_ne_head_of_primary (.inr rfl) a ha
    | plus a =>
      obtain ⟨u, us, hus⟩ := List.exists_cons_of_ne_nil a.tokens_ne_nil
      rw [Tree.tokens, hus, List.cons.injEq] at ha
      obtain ⟨rfl, rfl⟩ := ha
      obtain ⟨c₁, hu, hts⟩ := reads_cons_iff.mp hts
      rw [List.length_cons] at hlt
      refine .inr (.inl ⟨rfl, u, c₁, hu, ?_⟩)
      exact h.complete ⟨a, hus, hdef, rfl, named_cons_delimiter_iff.mp hn⟩ (by omega) hts hf
    | minus a =>
      obtain ⟨u, us, hus⟩ := List.exists_cons_of_ne_nil a.tokens_ne_nil
      rw [Tree.tokens, hus, List.cons.injEq] at ha
      obtain ⟨rfl, rfl⟩ := ha
      obtain ⟨c₁, hu, hts⟩ := reads_cons_iff.mp hts
      rw [List.length_cons] at hlt
      refine .inl ⟨rfl, u, c₁, a.value m, hu, ?_, rfl⟩
      exact h.complete ⟨a, hus, hdef, rfl, named_cons_delimiter_iff.mp hn⟩ (by omega) hts hf

/-- The rule for whole expressions is exact for comparisons, up to the number of tokens that
it is limited to. -/
theorem exact_comparisons (m : Memory) :
  ∀ n, Exact (comparisons m n) n (Means m .comparison) Part.comparison.goesOn
  | 0 =>
    { ne_nil := Means.ne_nil
      sound := fun h => absurd h fail_ne_ok
      complete := fun _ hlt => absurd hlt (Nat.not_lt_zero _) }
  | n + 1 => by
    have hsigned := exact_signed (exact_factor (exact_comparisons m n))
    have hpower : Exact (powers m (comparisons m n) (n + 1)) (n + 1) (Means m .power)
        Part.power.goesOn := by
      apply (hsigned.rightward Delimiter.isCaret (fun d _ => rfl) (by omega)).congr
      · intro us x
        apply means_power_iff
      · intro d
        apply Bool.or_false
    have hproduct : Exact (products m (comparisons m n) (n + 1)) (n + 1) (Means m .product)
        Part.product.goesOn := by
      apply (hpower.leftward Delimiter.isMultiplicative (by intro d; cases d <;> decide)
        (Nat.le_refl _)).congr
      · intro us x
        apply means_product_iff
      · intro d
        rfl
    have hsum : Exact (sums m (comparisons m n) (n + 1)) (n + 1) (Means m .sum)
        Part.sum.goesOn := by
      apply (hproduct.leftward Delimiter.isAdditive (by intro d; cases d <;> decide)
        (Nat.le_refl _)).congr
      · intro us x
        apply means_sum_iff
      · intro d
        rfl
    apply (hsum.rightward Delimiter.isRelational (by intro d; cases d <;> decide)
      (Nat.le_refl _)).congr
    · intro us x
      apply means_comparison_iff
    · intro d
      rfl

/-! ### Whole expressions -/

/-- The expression at the cursor is the value of the rule for whole expressions, given its
first token. -/
theorem evaluate_eq_ok_iff {c c' : Cursor} {x : Float} :
  Reading.evaluate m c = .ok x c'
    ↔ ∃ t c₁ f, next c = .ok t c₁ ∧ t.isEnd = false
      ∧ comparisons m (c₁.remaining + 2) t c₁ = .ok (x, f) c'
  := by
  rw [Reading.evaluate, bind_eq_ok_iff]
  constructor
  · rintro ⟨t, c₁, ht, h⟩
    use t, c₁
    cases hend : t.isEnd with
    | true =>
      simp only [hend, if_true] at h
      apply absurd h fail_ne_ok
    | false =>
      simp only [hend, Bool.false_eq_true, if_false] at h
      obtain ⟨_, _, hget, h⟩ := bind_eq_ok_iff.mp h
      cases hget
      obtain ⟨⟨y, f⟩, c₂, hy, h⟩ := bind_eq_ok_iff.mp h
      cases h
      exact ⟨f, ht, rfl, hy⟩
  · rintro ⟨t, c₁, f, ht, hend, h⟩
    use t, c₁, ht
    simp only [hend, Bool.false_eq_true, if_false]
    exact bind_of_ok h _

/-- An expression that has a value is the one of a tree. -/
theorem exists_tree_of_evaluate {c c' : Cursor} {x : Float}
    (h : Reading.evaluate m c = .ok x c') :
  ∃ (a : Tree .comparison) (f : Token) (c₀ : Cursor), Reads c a.tokens c₀
    ∧ next c₀ = .ok f c' ∧ (∀ d ∈ operators, f ≠ .delimiter d) ∧ a.Defined m ∧ a.value m = x
  := by
  obtain ⟨t, c₁, f, ht, -, h⟩ := evaluate_eq_ok_iff.mp h
  obtain ⟨ts, ⟨a, ha, hdef, hval, -⟩, hts, hf⟩ := (exact_comparisons m _).sound h
  obtain ⟨c₀, hts, hlast⟩ := reads_append_iff.mp hts
  use a, f, c₀
  and_intros
  · rw [ha]
    apply Reads.cons ht hts
  · apply reads_singleton_iff.mp hlast
  · apply isOperator_comparison_eq_false_iff.mp hf
  · apply hdef
  · apply hval

/-- The tokens of a defined tree have a value where a token that is no operator follows. -/
theorem evaluate_of_tree {a : Tree .comparison} {f : Token} {c c₀ c' : Cursor}
    (ha : Reads c a.tokens c₀) (hf : next c₀ = .ok f c') (hop : ∀ d ∈ operators, f ≠ .delimiter d)
    (hdef : a.Defined m) :
  Reading.evaluate m c = .ok (a.value m) c'
  := by
  have hend : ∀ t ∈ a.tokens, t.isEnd = false := fun t => a.isEnd_of_mem_tokens
  have hnamed : Named a.tokens := fun s => ha.isSome_slot
  obtain ⟨t, ts, hts⟩ := List.exists_cons_of_ne_nil a.tokens_ne_nil
  rw [hts] at ha hend
  obtain ⟨c₁, ht, hread⟩ := reads_cons_iff.mp ha
  have hlen : ts.length + c₀.remaining ≤ c₁.remaining := by
    apply hread.length_le
    intro hmem
    have h := hend _ (List.mem_cons_of_mem _ hmem)
    contradiction
  apply evaluate_eq_ok_iff.mpr
  use t, c₁, f, ht, hend t List.mem_cons_self
  apply (exact_comparisons m _).complete ⟨a, hts, hdef, rfl, hts ▸ hnamed⟩
  · omega
  · apply reads_append_iff.mpr
    use c₀, hread
    apply reads_singleton_iff.mpr hf
  · apply isOperator_comparison_eq_false_iff.mpr hop

/-- At any place of any source, evaluation yields a value exactly where the tokens are those
of a defined tree followed by a token that is no operator, and it yields the value of the tree.
Giving back that token leaves the cursor in front of it, where it is read again. -/
theorem evaluate_accepts_grammar (m : Memory) (c : Cursor) :
  (∀ x c', Reading.evaluate m c = .ok x c' →
    ∃ (a : Tree .comparison) (f : Token) (c₀ : Cursor),
      Reads c a.tokens c₀ ∧ next c₀ = .ok f c' ∧ (∀ d ∈ operators, f ≠ .delimiter d)
        ∧ a.Defined m ∧ a.value m = x
        ∧ c'.pushBack = c₀.skipBlanks ∧ next c'.pushBack = .ok f c')
  ∧ ∀ (a : Tree .comparison) (f : Token) (c₀ c' : Cursor),
      Reads c a.tokens c₀ → next c₀ = .ok f c' → (∀ d ∈ operators, f ≠ .delimiter d) →
        a.Defined m →
      Reading.evaluate m c = .ok (a.value m) c'
        ∧ c'.pushBack = c₀.skipBlanks ∧ next c'.pushBack = .ok f c'
  := by
  constructor
  · intro x c' h
    obtain ⟨a, f, c₀, ha, hf, hop, hdef, hval⟩ := exists_tree_of_evaluate h
    exact ⟨a, f, c₀, ha, hf, hop, hdef, hval, pushBack_of_next hf, next_pushBack hf⟩
  · intro a f c₀ c' ha hf hop hdef
    exact ⟨evaluate_of_tree ha hf hop hdef, pushBack_of_next hf, next_pushBack hf⟩

/-- With three in the slot of `A`, the expression in `2*-A^2-1 THEN` has the value 17, and
`THEN` is read after it. -/
theorem evaluate_accepts_signed_square :
  ∃ (a : Tree .comparison) (c₀ c' : Cursor),
    Reads { source := Source.ofString "2*-A^2-1 THEN" } a.tokens c₀
      ∧ next c₀ = .ok (.keyword .thenWord) c' ∧ a.value (Memory.zero.store 0 3.0) = 17.0
      ∧ Reading.evaluate (Memory.zero.store 0 3.0) { source := Source.ofString "2*-A^2-1 THEN" }
        = .ok (a.value (Memory.zero.store 0 3.0)) c'
      ∧ next c'.pushBack = .ok (.keyword .thenWord) c'
  := by
  let place (n : Nat) : Cursor := ⟨Source.ofString "2*-A^2-1 THEN", n, 1⟩
  let two : Tree .power := .ofSigned (.ofPrimary (.number "2"))
  let a : Tree .comparison :=
    .ofSum (.add (.ofProduct (.multiply (.ofPower two) .multiply rfl
        (.raise (.minus (.name "A")) two))) .minus rfl
      (.ofPower (.ofSigned (.ofPrimary (.number "1")))))
  have hA : next (place 3) = .ok (.name "A") (place 4) := by
    rw [next_eq_ok_iff]
    have hscan : Token.scan? "A^2-1 THEN".toList = some (.name "A", 1) := by
      decide +kernel
    exact ⟨1, hscan, by rfl⟩
  have hread : Reads { source := Source.ofString "2*-A^2-1 THEN" } a.tokens (place 8) := by
    apply reads_cons_iff.mpr ⟨place 1, by rfl, _⟩
    apply reads_cons_iff.mpr ⟨place 2, by rfl, _⟩
    apply reads_cons_iff.mpr ⟨place 3, by rfl, _⟩
    apply reads_cons_iff.mpr ⟨place 4, hA, _⟩
    apply reads_cons_iff.mpr ⟨place 5, by rfl, _⟩
    apply reads_cons_iff.mpr ⟨place 6, by rfl, _⟩
    apply reads_cons_iff.mpr ⟨place 7, by rfl, _⟩
    apply reads_cons_iff.mpr ⟨place 8, by rfl, .nil _⟩
  have hf : next (place 8) = .ok (.keyword .thenWord) ⟨Source.ofString "2*-A^2-1 THEN", 13, 4⟩ := by
    rw [next_eq_ok_iff]
    have hscan : Token.scan? "THEN".toList = some (.keyword .thenWord, 4) := by
      decide +kernel
    exact ⟨4, hscan, by rfl⟩
  have hdef : a.Defined (Memory.zero.store 0 3.0) := by
    simp only [a, two, Tree.Defined]
    decide +kernel
  have h := (evaluate_accepts_grammar (Memory.zero.store 0 3.0) _).2 a _ _ _ hread hf
    (by decide) hdef
  exact ⟨a, _, _, hread, hf, by decide +kernel, h.1, h.2.2⟩

end LineBasic.Expression
