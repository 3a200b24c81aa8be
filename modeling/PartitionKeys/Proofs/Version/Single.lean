/-
# Versions with a single column

Where versions have one column and its values are of one type, the two rules decide alike: a
proposed version is turned away if its value is below the stored one, and otherwise it is held
as it is, since its join with the stored version is itself.
-/
import PartitionKeys.Proofs.Version.Dominance

namespace PartitionKeys

namespace Version

/-- The version with a value in one column. -/
def single (column : String) (value : Value) : Version := ⟨[(column, .full value)]⟩

variable {column : String} {v w : Value}

@[simp] lemma get?_single (column : String) (v : Value) :
    (single column v).get? column = some (.full v) :=
  List.lookup_cons_self

@[simp] lemma value?_single (column : String) (v : Value) :
    (single column v).value? column = some v := by
  simp [value?, Cell.value?]

/-- The join takes the proposed value, unless it is below the stored one. -/
lemma join_single (htype : v.type = w.type) (hle : ¬v < w) :
    (single column v).join (single column w) = .ok (single column v) := by
  have hcell : joinCell column (.full v) (some (.full w)) = .ok (.full v) := by
    have hcompared := compareIn_compared column w v
    unfold joinCell
    simp only [Cell.value?]
    generalize compareIn column w v = answer at hcompared ⊢
    cases hcompared with
    | less h => exact absurd h hle
    | equal | greater => rfl
    | mismatch hne => exact absurd htype hne
  have hcolumns : joinColumns (single column w) (single column v).columns =
      .ok [(column, .full v)] := by
    change (joinCell column (.full v) ((single column w).get? column) >>= _) = _
    rw [get?_single, hcell]
    rfl
  have hrest : (single column w).columns.filter
      (fun held => ((single column v).get? held.1).isNone) = [] := by
    simp [single, get?]
  unfold join
  rw [hcolumns]
  change Except.ok (Version.mk ([(column, Cell.full v)] ++ (single column w).columns.filter
    (fun held => ((single column v).get? held.1).isNone))) = _
  rw [hrest]
  rfl

lemma supersede_join_single (htype : v.type = w.type) (hle : ¬v < w) :
    (do
      let joined ← (single column v).join (single column w)
      .ok (.supersede joined) : Except ComparisonError Decision) =
        .ok (.supersede (single column v)) := by
  rw [join_single htype hle]
  rfl

/-- The per-column rule turns away what is below and joins the rest. -/
lemma decide_single (htype : v.type = w.type) :
    (single column v).decide (single column w) =
      .ok (if v < w then .reject else .supersede (single column v)) := by
  have hfirst : (single column v).firstValue? = some (column, v) := rfl
  have hcompared := compareIn_compared column w v
  unfold decide
  rw [hfirst]
  dsimp only
  rw [value?_single]
  dsimp only
  generalize compareIn column w v = answer at hcompared ⊢
  cases hcompared with
  | less h =>
    rw [if_pos h]
    rfl
  | equal h =>
    have hle : ¬v < w := h ▸ lt_irrefl v
    rw [if_neg hle, ← supersede_join_single htype hle]
    rfl
  | greater h =>
    rw [if_neg h.not_gt, ← supersede_join_single htype h.not_gt]
    rfl
  | mismatch hne => exact absurd htype hne

/-- The sealed rule turns away what is below and takes the rest as it is. -/
lemma decideSealed_single (htype : v.type = w.type) :
    (single column v).decideSealed (single column w) [column] =
      .ok (if v < w then .reject else .supersede (single column v)) := by
  have hcompared := compareIn_compared column w v
  rw [decideSealed_eq]
  simp only [List.map_cons, List.map_nil, value?_single, Sealed.compareFrom_cons_some,
    List.head?_cons, Option.getD_some]
  generalize compareIn column w v = answer at hcompared ⊢
  cases hcompared with
  | less h =>
    rw [if_pos h]
    rfl
  | equal h =>
    rw [if_neg (h ▸ lt_irrefl v)]
    rfl
  | greater h => rw [if_neg h.not_gt]
  | mismatch hne => exact absurd htype hne

end Version

/-- On versions with one column of one type, both rules turn away what is below. -/
theorem ComparisonRule.decide_single (rule : ComparisonRule) {column : String} {v w : Value}
    (htype : v.type = w.type) :
    rule.decide (.single column v) (.single column w) [column] =
      .ok (if v < w then .reject else .supersede (.single column v)) := by
  cases rule with
  | perColumn => exact Version.decide_single htype
  | sealed => exact Version.decideSealed_single htype

end PartitionKeys
