import StackScript.Proofs.Arithmetic.Promotion

/-
  The order of numbers of all sorts.

  Two numbers are compared by what they are, unless one of
  them is a decimal; then they are compared by what they are
  shown as. Each pair has one order, but three numbers need
  not have one. A floating-point number has two places, and
  where an integer and a decimal stand between these the
  wrong way round, the three are in a circle.

  Key definitions include:
    * `Value.order`
    * `Value.Ordered`
    * `Value.TransitiveOn`
    * `Value.Crossed`

  Key theorems include:
    * `Value.compare_eq_order`
    * `Value.exists_key`
    * `Value.compare_ordered`
-/

namespace StackScript
namespace Value

/- The value is a decimal. -/
def isDecimal : Value → Bool
| .decimal _ => true
| _ => false

/- The order that two numbers are found in. -/
def order (l r : Value) : Ordering :=
  if l.isDecimal || r.isDecimal then cmp l.shown r.shown
  else cmp l.exact r.exact

/- The comparisons. -/
def comparisonOps : List Op :=
  [.eq, .ne, .gt, .lt, .gte, .lte]

variable {op : Op}
variable {l r u v w : Value}
variable {vs : List Value}

------------------------------------------------------------
-- Comparisons of Two Numbers
------------------------------------------------------------

theorem order_swap (l r : Value) : (order l r).swap = order r l := by
  unfold order
  rw [Bool.or_comm]
  split
  · exact cmp_swap _ _
  · exact cmp_swap _ _

/- A number next to an integer is a decimal only for its fraction. -/
theorem cmp_intCast_shown
    (i : Int)
    {x : Binary64}
    (hNeeds : (Value.integer i).NeedsDecimal ∨ (Value.number x).NeedsDecimal) :
    cmp (i : ℚ) x.written = cmp (i : ℚ) x.value := by
  rcases hNeeds with hInteger | hNumber
  · cases hInteger
  · rcases hNumber with _ | ⟨_, hFinite, hFraction⟩
    rw [← Binary64.isIntegral_iff hFinite, Bool.not_eq_true] at hFraction
    exact Binary64.cmp_intCast_written i hFinite hFraction

/- Numbers that become decimals without one stay in their order. -/
theorem cmp_shown
    (hl : l.IsFinite)
    (hr : r.IsFinite)
    (hDecimal : (l.isDecimal || r.isDecimal) = false)
    (hNeeds : l.NeedsDecimal ∨ r.NeedsDecimal) :
    cmp l.shown r.shown = cmp l.exact r.exact := by
  rw [Bool.or_eq_false_iff] at hDecimal
  cases l with
  | number x =>
      cases r with
      | number y => exact Binary64.cmp_written hl hr
      | integer i =>
          have hSame :=
            congrArg Ordering.swap (cmp_intCast_shown i hNeeds.symm)
          rw [cmp_swap, cmp_swap] at hSame
          exact hSame
      | decimal d => cases hDecimal.2
      | _ => cases hr
  | integer i =>
      cases r with
      | number y => exact cmp_intCast_shown i hNeeds
      | integer j => rfl
      | decimal d => cases hDecimal.2
      | _ => cases hr
  | decimal d => cases hDecimal.1
  | _ => cases hl

/- Each comparison is a test of the order. -/
theorem compare_eq_order
    {f : Ordering → Bool}
    (hl : l.IsFinite)
    (hr : r.IsFinite)
    (hOp : orderTest? op = some f) :
    compare op l r = .ok (f (order l r)) := by
  unfold compare
  by_cases hNeeds : l.NeedsDecimal ∨ r.NeedsDecimal
  · have hOrder : order l r = cmp l.shown r.shown := by
      unfold order
      split
      · rfl
      · rename_i hDecimal
        exact
          (cmp_shown hl hr (Bool.eq_false_of_not_eq_true hDecimal) hNeeds).symm
    rcases promote_decimals hl hr hNeeds with ⟨a, b, hPromote, ha, hb⟩
    rw [hPromote, hOrder, ← ha, ← hb, ← Decimal.compare_eq]
    simp only [bind, Except.bind, hOp]
  · have hOrder : order l r = cmp l.exact r.exact := by
      have hDecimal
          (v : Value)
          (h : ¬v.NeedsDecimal) :
          v.isDecimal = false := by
        cases v with
        | decimal d => exact (h (.decimal d)).elim
        | _ => rfl
      unfold order
      rw [hDecimal l fun h => hNeeds (.inl h),
        hDecimal r fun h => hNeeds (.inr h)]
      rfl
    rcases exists_denotes hl fun h => hNeeds (.inl h) with ⟨i, hi, hLeft⟩
    rcases exists_denotes hr fun h => hNeeds (.inr h) with ⟨j, hj, hRight⟩
    rw [promote_integers hi hj, hOrder, hLeft, hRight,
      (Int.cast_strictMono (R := ℚ)).cmp_map_eq, cmp_eq_compare]
    simp only [bind, Except.bind, hOp]

/-
  Two numbers have an answer to each comparison, and the
  answers are those of one order.
-/
structure Ordered (l r : Value) : Prop where
  answers : ∀ op ∈ comparisonOps, ∃ t, compare op l r = .ok t
  one :
    ∃! op, op ∈ [Op.lt, .eq, .gt] ∧ compare op l r = .ok true
  ne : compare .ne l r = (compare .eq l r).map (!·)
  lte : compare .lte l r = (compare .gt l r).map (!·)
  gte : compare .gte l r = (compare .lt l r).map (!·)
  gt : compare .gt l r = compare .lt r l

/- The comparison that asks for an order. -/
def asks : Ordering → Op
| .lt => .lt
| .eq => .eq
| .gt => .gt

theorem compare_asks_iff
    (hl : l.IsFinite)
    (hr : r.IsFinite)
    (o : Ordering) :
    compare (asks o) l r = .ok true ↔ order l r = o := by
  have hTest : orderTest? (asks o) = some (· == o) := by
    cases o <;> rfl
  rw [compare_eq_order hl hr hTest, Except.ok.injEq, beq_iff_eq]

theorem exists_asks (hOp : op ∈ [Op.lt, .eq, .gt]) :
    ∃ o, op = asks o := by
  cases op with
  | lt => exact ⟨.lt, rfl⟩
  | eq => exact ⟨.eq, rfl⟩
  | gt => exact ⟨.gt, rfl⟩
  | _ => exact absurd hOp (by decide)

theorem exists_orderTest (hOp : op ∈ comparisonOps) :
    ∃ f, orderTest? op = some f := by
  cases op with
  | eq => exact ⟨_, rfl⟩
  | ne => exact ⟨_, rfl⟩
  | gt => exact ⟨_, rfl⟩
  | lt => exact ⟨_, rfl⟩
  | gte => exact ⟨_, rfl⟩
  | lte => exact ⟨_, rfl⟩
  | _ => exact absurd hOp (by decide)

theorem ordered_of_isFinite
    (hl : l.IsFinite)
    (hr : r.IsFinite) :
    Ordered l r where
  answers op hOp := by
    rcases exists_orderTest hOp with ⟨f, hf⟩
    exact ⟨_, compare_eq_order hl hr hf⟩
  one := by
    refine ⟨asks (order l r), ⟨?_, ?_⟩, ?_⟩
    · cases order l r <;> decide
    · rw [compare_asks_iff hl hr]
    · rintro op ⟨hOp, hTrue⟩
      rcases exists_asks hOp with ⟨o, rfl⟩
      rw [compare_asks_iff hl hr] at hTrue
      rw [hTrue]
  ne := by
    rw [compare_eq_order hl hr rfl, compare_eq_order hl hr rfl]
    rfl
  lte := by
    rw [compare_eq_order hl hr rfl, compare_eq_order hl hr rfl]
    rfl
  gte := by
    rw [compare_eq_order hl hr rfl, compare_eq_order hl hr rfl]
    rfl
  gt := by
    rw [compare_eq_order hl hr rfl, compare_eq_order hr hl rfl,
      ← order_swap l r]
    cases order l r <;> rfl

------------------------------------------------------------
-- Places on One Line
------------------------------------------------------------

/- Among some values a comparison is transitive. -/
def TransitiveOn
    (op : Op)
    (vs : List Value) : Prop :=
  ∀ u ∈ vs, ∀ v ∈ vs, ∀ w ∈ vs,
    compare op u v = .ok true →
      compare op v w = .ok true →
      compare op u w = .ok true

/- Values that have places on one line are ordered as these are. -/
theorem transitiveOn_of_key
    (o : Ordering)
    (hFinite : ∀ v ∈ vs, v.IsFinite)
    (key : Value → ℚ)
    (hKey : ∀ u ∈ vs, ∀ v ∈ vs, order u v = cmp (key u) (key v)) :
    TransitiveOn (asks o) vs := by
  intro u hu v hv w hw
  rw [compare_asks_iff (hFinite u hu) (hFinite v hv),
    compare_asks_iff (hFinite v hv) (hFinite w hw),
    compare_asks_iff (hFinite u hu) (hFinite w hw),
    hKey u hu v hv, hKey v hv w hw, hKey u hu w hw]
  intro hLeft hRight
  cases o with
  | lt =>
      rw [cmp_eq_lt_iff] at *
      exact hLeft.trans hRight
  | eq =>
      rw [cmp_eq_eq_iff] at *
      exact hLeft.trans hRight
  | gt =>
      rw [cmp_eq_gt_iff] at *
      exact hRight.trans hLeft

/-
  A floating-point number with an integer and a decimal
  between its two places, so that going from one place to
  the other through both never turns back.
-/
def Crossed (vs : List Value) : Prop :=
  ∃ (x : Binary64) (i : Int) (d : Decimal),
    .number x ∈ vs ∧
      .integer i ∈ vs ∧
      .decimal d ∈ vs ∧
      x.value ≠ x.written ∧
      (x.value ≤ i ∧ i ≤ d.value ∧ d.value ≤ x.written ∨
        x.written ≤ d.value ∧ d.value ≤ i ∧ i ≤ x.value)

/-
  Unless two points stand in this way between two places,
  one place is on the side of the first place from the first
  point, and on that of the second place from the second.
-/
theorem exists_place
    {s t a b : ℚ}
    (h : ¬(s ≠ t ∧ (s ≤ a ∧ a ≤ b ∧ b ≤ t ∨ t ≤ b ∧ b ≤ a ∧ a ≤ s))) :
    ∃ k : ℚ, cmp k a = cmp s a ∧ cmp k b = cmp t b := by
  have hLess
      {x y z : ℚ}
      (hx : x < z)
      (hy : y < z) :
      cmp x z = cmp y z := by
    rw [(cmp_eq_lt_iff _ _).2 hx, (cmp_eq_lt_iff _ _).2 hy]
  have hMore
      {x y z : ℚ}
      (hx : z < x)
      (hy : z < y) :
      cmp x z = cmp y z := by
    rw [(cmp_eq_gt_iff _ _).2 hx, (cmp_eq_gt_iff _ _).2 hy]
  rcases eq_or_ne s t with rfl | hNe
  · exact ⟨s, rfl, rfl⟩
  have hUp : s ≤ a → a ≤ b → t < b := fun hs hab =>
    not_le.1 fun ht => h ⟨hNe, .inl ⟨hs, hab, ht⟩⟩
  have hDown : a ≤ s → b ≤ a → b < t := fun hs hab =>
    not_le.1 fun ht => h ⟨hNe, .inr ⟨ht, hab, hs⟩⟩
  rcases lt_trichotomy a b with hab | rfl | hab
  · rcases le_or_gt s a with hs | hs
    · exact ⟨s, rfl, hLess (hs.trans_lt hab) (hUp hs hab.le)⟩
    · rcases lt_or_ge t b with ht | ht
      -- Neither place will do here, but one between the points does.
      · exact ⟨(a + b) / 2, hMore (by linarith) hs, hLess (by linarith) ht⟩
      · exact ⟨t, hMore (hab.trans_le ht) hs, rfl⟩
  · rcases le_total s a with hs | hs
    · have ht := hUp hs le_rfl
      have hs' : s < a := not_le.1 fun hAbove =>
        lt_asymm ht (hDown hAbove le_rfl)
      exact ⟨s, rfl, hLess hs' ht⟩
    · have ht := hDown hs le_rfl
      have hs' : a < s := not_le.1 fun hBelow =>
        lt_asymm ht (hUp hBelow le_rfl)
      exact ⟨s, rfl, hMore hs' ht⟩
  · rcases le_or_gt a s with hs | hs
    · exact ⟨s, rfl, hMore (hab.trans_le hs) (hDown hs hab.le)⟩
    · rcases lt_or_ge b t with ht | ht
      · exact ⟨(a + b) / 2, hLess (by linarith) hs, hMore (by linarith) ht⟩
      · exact ⟨t, hLess (ht.trans_lt hab) hs, rfl⟩

/- Of three values that three are known, there is no other. -/
theorem eq_of_mem_three
    {x : Binary64}
    {i : Int}
    {d : Decimal}
    (hLength : vs.length ≤ 3)
    (hNumber : .number x ∈ vs)
    (hInteger : .integer i ∈ vs)
    (hDecimal : .decimal d ∈ vs)
    (hv : v ∈ vs) :
    v = .number x ∨ v = .integer i ∨ v = .decimal d := by
  by_contra hOther
  push Not at hOther
  have hDistinct :
      [v, .number x, .integer i, .decimal d].Nodup := by
    simp [hOther]
  have hSubset : [v, .number x, .integer i, .decimal d] ⊆ vs := by
    simp [hv, hNumber, hInteger, hDecimal]
  have hFour := (hDistinct.subperm hSubset).length_le
  simp only [List.length_cons, List.length_nil] at hFour
  omega

/- The place of a value, with a given one for floating-point numbers. -/
def placeWith
    (k : ℚ) : Value → ℚ
| .number _ => k
| v => v.shown

theorem cmp_placeWith
    {x : Binary64}
    {i : Int}
    {d : Decimal}
    {k : ℚ}
    (hExact : cmp k i = cmp x.value i)
    (hShown : cmp k d.value = cmp x.written d.value)
    (hu : u = .number x ∨ u = .integer i ∨ u = .decimal d)
    (hv : v = .number x ∨ v = .integer i ∨ v = .decimal d) :
    order u v = cmp (placeWith k u) (placeWith k v) := by
  have hExactSwap := congrArg Ordering.swap hExact
  have hShownSwap := congrArg Ordering.swap hShown
  rw [cmp_swap, cmp_swap] at hExactSwap hShownSwap
  rcases hu with rfl | rfl | rfl
  · rcases hv with rfl | rfl | rfl
    · exact (cmp_self_eq_eq x.value).trans (cmp_self_eq_eq k).symm
    · exact hExact.symm
    · exact hShown.symm
  · rcases hv with rfl | rfl | rfl
    · exact hExactSwap.symm
    · rfl
    · rfl
  · rcases hv with rfl | rfl | rfl
    · exact hShownSwap.symm
    · rfl
    · rfl

/- Numbers of one sort are in the order that they are shown in. -/
theorem order_eq_shown
    (hu : u.IsFinite)
    (hv : v.IsFinite)
    (hSort :
      (∀ i, u ≠ .integer i ∧ v ≠ .integer i) ∨
        ∀ x, u ≠ .number x ∧ v ≠ .number x) :
    order u v = cmp u.shown v.shown := by
  cases u with
  | number x =>
      cases v with
      | number y => exact (Binary64.cmp_written hu hv).symm
      | integer j =>
          rcases hSort with hSort | hSort
          · exact ((hSort j).2 rfl).elim
          · exact ((hSort x).1 rfl).elim
      | decimal e => rfl
      | _ => cases hv
  | integer i =>
      cases v with
      | number y =>
          rcases hSort with hSort | hSort
          · exact ((hSort i).1 rfl).elim
          · exact ((hSort y).2 rfl).elim
      | integer j => rfl
      | decimal e => rfl
      | _ => cases hv
  | decimal d => rfl
  | _ => cases hu

/- Three values have places on one line, unless they are crossed. -/
theorem exists_key
    (hFinite : ∀ v ∈ vs, v.IsFinite)
    (hLength : vs.length ≤ 3)
    (hCrossed : ¬Crossed vs) :
    ∃ key : Value → ℚ,
      ∀ u ∈ vs, ∀ v ∈ vs, order u v = cmp (key u) (key v) := by
  -- Only where all three sorts meet is the place of the number in doubt.
  by_cases hDecimal : ∃ d, .decimal d ∈ vs
  swap
  · have hNone (v : Value) (hv : v ∈ vs) : v.isDecimal = false := by
      cases v with
      | decimal d => exact (hDecimal ⟨d, hv⟩).elim
      | _ => rfl
    refine ⟨exact, fun u hu v hv => ?_⟩
    unfold order
    rw [hNone u hu, hNone v hv]
    rfl
  by_cases hInteger : ∃ i, .integer i ∈ vs
  swap
  · refine ⟨shown, fun u hu v hv => ?_⟩
    refine order_eq_shown (hFinite u hu) (hFinite v hv) (.inl fun i => ?_)
    constructor
    · rintro rfl
      exact hInteger ⟨i, hu⟩
    · rintro rfl
      exact hInteger ⟨i, hv⟩
  by_cases hNumber : ∃ x, .number x ∈ vs
  swap
  · refine ⟨shown, fun u hu v hv => ?_⟩
    refine order_eq_shown (hFinite u hu) (hFinite v hv) (.inr fun x => ?_)
    constructor
    · rintro rfl
      exact hNumber ⟨x, hu⟩
    · rintro rfl
      exact hNumber ⟨x, hv⟩
  rcases hDecimal with ⟨d, hd⟩
  rcases hInteger with ⟨i, hi⟩
  rcases hNumber with ⟨x, hx⟩
  have hApart := fun h => hCrossed ⟨x, i, d, hx, hi, hd, h⟩
  rcases exists_place hApart with ⟨k, hExact, hShown⟩
  exact ⟨placeWith k, fun u hu v hv =>
    cmp_placeWith hExact hShown (eq_of_mem_three hLength hx hi hd hu)
      (eq_of_mem_three hLength hx hi hd hv)⟩

------------------------------------------------------------
-- Circles
------------------------------------------------------------

/- Where both comparisons are transitive, no step of a circle goes up. -/
theorem not_lt_of_circle
    (hFinite : ∀ v ∈ vs, v.IsFinite)
    (hLess : TransitiveOn .lt vs)
    (hSame : TransitiveOn .eq vs)
    (hu : u ∈ vs)
    (hv : v ∈ vs)
    (hw : w ∈ vs)
    (hvw : order v w ≠ .gt)
    (hwu : order w u ≠ .gt) :
    order u v ≠ .lt := by
  -- One step that is an equality turns the next into a step back.
  have hLt {a b : Value} (ha : a ∈ vs) (hb : b ∈ vs) :=
    compare_asks_iff (hFinite a ha) (hFinite b hb) .lt
  have hEq {a b : Value} (ha : a ∈ vs) (hb : b ∈ vs) :=
    compare_asks_iff (hFinite a ha) (hFinite b hb) .eq
  intro huv
  cases hStep : order v w with
  | lt =>
      have hOver :=
        (hLt hu hw).1
          (hLess u hu v hv w hw ((hLt hu hv).2 huv) ((hLt hv hw).2 hStep))
      rw [← order_swap, hOver] at hwu
      exact hwu rfl
  | eq =>
      cases hBack : order w u with
      | lt =>
          have hOver :=
            (hLt hw hv).1
              (hLess w hw u hu v hv ((hLt hw hu).2 hBack) ((hLt hu hv).2 huv))
          rw [← order_swap, hOver] at hStep
          cases hStep
      | eq =>
          have hOver :=
            (hEq hv hu).1
              (hSame v hv w hw u hu ((hEq hv hw).2 hStep) ((hEq hw hu).2 hBack))
          rw [← order_swap, hOver] at huv
          cases huv
      | gt => exact hwu hBack
  | gt => exact hvw hStep

/- The values of such a circle are equal. -/
theorem eq_of_circle
    (hFinite : ∀ v ∈ vs, v.IsFinite)
    (hLess : TransitiveOn .lt vs)
    (hSame : TransitiveOn .eq vs)
    (hu : u ∈ vs)
    (hv : v ∈ vs)
    (hw : w ∈ vs)
    (huv : order u v ≠ .gt)
    (hvw : order v w ≠ .gt)
    (hwu : order w u ≠ .gt) :
    order u v = .eq ∧ order v w = .eq ∧ order w u = .eq := by
  have hNeither {o : Ordering} (hLt : o ≠ .lt) (hGt : o ≠ .gt) : o = .eq := by
    cases o with
    | lt => exact (hLt rfl).elim
    | eq => rfl
    | gt => exact (hGt rfl).elim
  have hFirst := not_lt_of_circle hFinite hLess hSame hu hv hw hvw hwu
  have hSecond := not_lt_of_circle hFinite hLess hSame hv hw hu hwu huv
  have hThird := not_lt_of_circle hFinite hLess hSame hw hu hv huv hvw
  exact ⟨hNeither hFirst huv, hNeither hSecond hvw, hNeither hThird hwu⟩

theorem cmp_ne_gt
    {a b : ℚ}
    (h : a ≤ b) :
    cmp a b ≠ .gt := by
  rw [Ne, cmp_eq_gt_iff]
  exact not_lt.2 h

/- Crossed values are in a circle, and are not equal. -/
theorem not_crossed_of_transitiveOn
    (hFinite : ∀ v ∈ vs, v.IsFinite)
    (hLess : TransitiveOn .lt vs)
    (hSame : TransitiveOn .eq vs) :
    ¬Crossed vs := by
  rintro ⟨x, i, d, hx, hi, hd, hNe, ⟨hLow, hMid, hHigh⟩ | ⟨hLow, hMid, hHigh⟩⟩
  · rcases eq_of_circle hFinite hLess hSame hx hi hd (cmp_ne_gt hLow)
      (cmp_ne_gt hMid) (cmp_ne_gt hHigh) with ⟨hFirst, hSecond, hThird⟩
    have hxi : x.value = i := (cmp_eq_eq_iff _ _).1 hFirst
    have hid : (i : ℚ) = d.value := (cmp_eq_eq_iff _ _).1 hSecond
    have hdx : d.value = x.written := (cmp_eq_eq_iff _ _).1 hThird
    exact hNe (hxi.trans (hid.trans hdx))
  · rcases eq_of_circle hFinite hLess hSame hx hd hi (cmp_ne_gt hLow)
      (cmp_ne_gt hMid) (cmp_ne_gt hHigh) with ⟨hFirst, hSecond, hThird⟩
    have hxd : x.written = d.value := (cmp_eq_eq_iff _ _).1 hFirst
    have hdi : d.value = i := (cmp_eq_eq_iff _ _).1 hSecond
    have hix : (i : ℚ) = x.value := (cmp_eq_eq_iff _ _).1 hThird
    exact hNe (hxd.trans (hdi.trans hix)).symm

/-
  Finite numbers of all sorts can be compared, and any two
  are in one order. Three are, unless they are crossed.
-/
theorem compare_ordered
    {a b c : Value}
    (ha : a.IsFinite)
    (hb : b.IsFinite)
    (hc : c.IsFinite) :
    Ordered a b ∧
      (TransitiveOn .eq [a, b, c] ∧ TransitiveOn .lt [a, b, c] ↔
        ¬Crossed [a, b, c]) := by
  have hFinite : ∀ v ∈ [a, b, c], v.IsFinite := by
    simp [ha, hb, hc]
  refine ⟨ordered_of_isFinite ha hb, ?_, ?_⟩
  · rintro ⟨hSame, hLess⟩
    exact not_crossed_of_transitiveOn hFinite hLess hSame
  · intro hCrossed
    rcases exists_key hFinite le_rfl hCrossed with ⟨key, hKey⟩
    exact ⟨transitiveOn_of_key .eq hFinite key hKey,
      transitiveOn_of_key .lt hFinite key hKey⟩

/- One is written as one, so that nothing is crossed with it. -/
theorem compare_ordered_one :
    (Value.integer 2).IsFinite ∧
      (Value.number .one).IsFinite ∧
      (Value.decimal ⟨15, 1⟩).IsFinite ∧
      Ordered (.integer 2) (.number .one) ∧
      TransitiveOn .eq [.integer 2, .number .one, .decimal ⟨15, 1⟩] ∧
      TransitiveOn .lt [.integer 2, .number .one, .decimal ⟨15, 1⟩] := by
  have hDigits : Decimal.ofShortest? .one = some ⟨1, 0⟩ := by
    decide +kernel
  have hWritten : Binary64.one.written = 1 := by
    unfold Binary64.written
    rw [hDigits]
    exact Decimal.value_ofInt 1
  have hForm : Binary64.one = .finite false (2 ^ 52) (-52) (by decide) := by
    decide +kernel
  have hValue : Binary64.one.value = 1 := by
    rw [hForm]
    norm_num [Binary64.value]
  have hCrossed :
      ¬Crossed [.integer 2, .number .one, .decimal ⟨15, 1⟩] := by
    rintro ⟨x, i, d, hx, -, -, hNe, -⟩
    simp only [List.mem_cons, List.not_mem_nil, or_false, false_or,
      reduceCtorEq, Value.number.injEq] at hx
    rw [hx, hValue, hWritten] at hNe
    exact hNe rfl
  have hAll := compare_ordered (a := .integer 2) (b := .number .one)
    (c := .decimal ⟨15, 1⟩) trivial rfl trivial
  exact ⟨trivial, rfl, trivial, hAll.1, hAll.2.2 hCrossed⟩

/-
  Two to the power of sixty-four is equal to itself as an
  integer and to what it is shown as, which are not equal.
-/
theorem compare_circle :
    (Value.number (.finite false (2 ^ 52) 12 (by decide))).IsFinite ∧
      compare .eq (.integer (2 ^ 64))
          (.number (.finite false (2 ^ 52) 12 (by decide))) =
        .ok true ∧
      compare .eq (.number (.finite false (2 ^ 52) 12 (by decide)))
          (.decimal ⟨18446744073709552000, 0⟩) =
        .ok true ∧
      compare .eq (.integer (2 ^ 64)) (.decimal ⟨18446744073709552000, 0⟩) =
        .ok false :=
  ⟨rfl, rfl, rfl, rfl⟩

end Value
end StackScript
