/-
# Losing by the sealed rule

By the sealed rule a version loses if none of its values is above the stored one and some
stored value is above its own, where a missing value is below every value.  With several
columns this is no total order: of two versions neither need lose.  But a version that loses to
one with a value in every column also loses to whatever that one loses to, missing values of
the last one or not.
-/
import PartitionKeys.Proofs.Version.Order
import PartitionKeys.Version.Sealed

namespace PartitionKeys

namespace Sealed

/-- The proposed value of a position is not above the stored one. -/
def Yields : Option Value × Option Value → Prop
  | (some own, some stored) => own ≤ stored
  | _ => True

/-- The stored value of a position is above the proposed one. -/
def Beaten : Option Value × Option Value → Prop
  | (some own, some stored) => own < stored
  | (none, some _) => True
  | (_, none) => False

/-- The values of a position are of one type. -/
def Typed : Option Value × Option Value → Prop
  | (some own, some stored) => own.type = stored.type
  | _ => True

lemma compareFrom_cons_some (names : List String) (lost : Bool) (own stored : Value)
    (rest : List (Option Value × Option Value)) :
    compareFrom names lost ((some own, some stored) :: rest) =
      match compareIn (names.head?.getD "?") stored own with
      | .error e => .error e
      | .ok .gt => .ok .gt
      | .ok .lt => compareFrom names.tail true rest
      | .ok .eq => compareFrom names.tail lost rest := by
  rw [compareFrom]
  cases compareIn (names.head?.getD "?") stored own with
  | error e => rfl
  | ok order => cases order <;> rfl

/-- The proposed values lose if none of them is above the stored one and some stored one is
above them. -/
theorem compareFrom_eq_lt_iff {names : List String} {lost : Bool}
    {pairs : List (Option Value × Option Value)} :
    compareFrom names lost pairs = .ok .lt ↔
      (∀ pair ∈ pairs, Yields pair) ∧ (lost = true ∨ ∃ pair ∈ pairs, Beaten pair) := by
  induction pairs generalizing names lost with
  | nil => cases lost <;> simp [compareFrom]
  | cons pair rest ih =>
    simp only [List.mem_cons, forall_eq_or_imp, exists_eq_or_imp]
    match pair with
    | (own, none) =>
      have hyields : Yields (own, none) := by cases own <;> trivial
      simp [compareFrom, ih, hyields, Beaten]
    | (none, some stored) => simp [compareFrom, ih, Yields, Beaten]
    | (some own, some stored) =>
      rw [compareFrom_cons_some]
      have hcompared := compareIn_compared (names.head?.getD "?") stored own
      generalize compareIn (names.head?.getD "?") stored own = answer at hcompared ⊢
      cases hcompared with
      | less h => simp [ih, Yields, Beaten, h, h.le]
      | equal h => simp [ih, Yields, Beaten, h]
      | greater h => simp [Yields, h.not_ge]
      | mismatch h =>
        have hnot : ¬own ≤ stored := fun hle => h (Value.type_eq_of_le hle)
        simp [Yields, hnot]

/-- Values of one type in each position can be compared. -/
lemma exists_compareFrom (names : List String) (lost : Bool)
    {pairs : List (Option Value × Option Value)} (typed : ∀ pair ∈ pairs, Typed pair) :
    ∃ order, compareFrom names lost pairs = .ok order := by
  induction pairs generalizing names lost with
  | nil => exact ⟨_, rfl⟩
  | cons pair rest ih =>
    obtain ⟨hpair, hrest⟩ := List.forall_mem_cons.1 typed
    match pair, hpair with
    | (own, none), _ => simpa [compareFrom] using ih _ _ hrest
    | (none, some stored), _ => simpa [compareFrom] using ih _ _ hrest
    | (some own, some stored), htype =>
      rw [compareFrom_cons_some]
      have hcompared := compareIn_compared (names.head?.getD "?") stored own
      generalize compareIn (names.head?.getD "?") stored own = answer at hcompared ⊢
      cases hcompared with
      | less => exact ih _ _ hrest
      | equal => exact ih _ _ hrest
      | greater => exact ⟨.gt, rfl⟩
      | mismatch hne => exact absurd htype hne

end Sealed

namespace Version

/-- A version loses to a stored one in some columns: none of its values is above the stored one,
and some stored value is above its own, or stands where it has none. -/
structure Loses (names : List String) (own stored : Version) : Prop where
  yields : ∀ name ∈ names, Sealed.Yields (own.value? name, stored.value? name)
  beaten : ∃ name ∈ names, Sealed.Beaten (own.value? name, stored.value? name)

/-- A version has a value in each of some columns, and these are of given types. -/
def IsFull (names : List String) (types : String → ValueType) (v : Version) : Prop :=
  ∀ name ∈ names, ∃ value, v.value? name = some value ∧ value.type = types name

lemma decideSealed_eq (own stored : Version) (names : List String) :
    own.decideSealed stored names =
      match Sealed.compareFrom names false
        (names.map fun name => (own.value? name, stored.value? name)) with
      | .error e => .error e
      | .ok .lt => .ok .reject
      | .ok _ => .ok (.supersede own) := by
  have hcompare : Sealed.compare (own.project names) (stored.project names) names =
      Sealed.compareFrom names false
        (names.map fun name => (own.value? name, stored.value? name)) := by
    unfold Sealed.compare project
    rw [if_pos (by simp), List.zip_map']
  unfold decideSealed
  rw [hcompare]
  cases Sealed.compareFrom names false _ with
  | error e => rfl
  | ok order => cases order <;> rfl

/-- By the sealed rule a version is turned away exactly if it loses. -/
theorem decideSealed_eq_reject_iff {own stored : Version} {names : List String} :
    own.decideSealed stored names = .ok .reject ↔ own.Loses names stored := by
  have hreject : own.decideSealed stored names = .ok .reject ↔ Sealed.compareFrom names false
      (names.map fun name => (own.value? name, stored.value? name)) = .ok .lt := by
    rw [decideSealed_eq]
    cases Sealed.compareFrom names false _ with
    | error e => simp
    | ok order => cases order <;> simp
  rw [hreject, Sealed.compareFrom_eq_lt_iff]
  simp only [List.mem_map, forall_exists_index, and_imp, forall_apply_eq_imp_iff₂,
    Bool.false_eq_true, false_or, exists_exists_and_eq_and]
  exact ⟨fun h => ⟨h.1, h.2⟩, fun h => ⟨h.yields, h.beaten⟩⟩

instance (names : List String) (own stored : Version) : Decidable (own.Loses names stored) :=
  match h : own.decideSealed stored names with
  | .ok .reject => isTrue (decideSealed_eq_reject_iff.1 h)
  | .ok (.supersede _) => isFalse fun hlose => by
    rw [decideSealed_eq_reject_iff.2 hlose] at h
    cases h
  | .error _ => isFalse fun hlose => by
    rw [decideSealed_eq_reject_iff.2 hlose] at h
    cases h

/-- Versions with values of one type in each column can be compared. -/
lemma loses_or_supersedes {own stored : Version} {names : List String}
    (typed : ∀ name ∈ names, Sealed.Typed (own.value? name, stored.value? name)) :
    own.Loses names stored ∨ own.decideSealed stored names = .ok (.supersede own) := by
  have htyped : ∀ pair ∈ names.map fun name => (own.value? name, stored.value? name),
      Sealed.Typed pair := by
    simpa only [List.forall_mem_map] using typed
  obtain ⟨order, horder⟩ := Sealed.exists_compareFrom names false htyped
  rw [← decideSealed_eq_reject_iff, decideSealed_eq, horder]
  cases order <;> simp

lemma exists_decideSealed {own stored : Version} {names : List String}
    {types : String → ValueType} (hown : own.IsFull names types)
    (hstored : stored.IsFull names types) :
    own.Loses names stored ∨ own.decideSealed stored names = .ok (.supersede own) := by
  refine loses_or_supersedes fun name hname => ?_
  obtain ⟨v, hv, hvtype⟩ := hown name hname
  obtain ⟨w, hw, hwtype⟩ := hstored name hname
  rw [hv, hw]
  exact hvtype.trans hwtype.symm

/-- A version that loses to a full one loses to whatever that one loses to. -/
lemma Loses.trans {names : List String} {types : String → ValueType} {u v w : Version}
    (huv : u.Loses names v) (full : v.IsFull names types) (hvw : v.Loses names w) :
    u.Loses names w where
  yields name hname := by
    obtain ⟨middle, hmiddle, -⟩ := full name hname
    have hlow := huv.yields name hname
    have hhigh := hvw.yields name hname
    rw [hmiddle] at hlow hhigh
    generalize u.value? name = own at hlow ⊢
    generalize w.value? name = stored at hhigh ⊢
    match own, stored with
    | some own, some stored => exact le_trans (α := Value) hlow hhigh
    | some own, none => trivial
    | none, _ => trivial
  beaten := by
    obtain ⟨name, hname, hbeaten⟩ := hvw.beaten
    obtain ⟨middle, hmiddle, -⟩ := full name hname
    have hlow := huv.yields name hname
    refine ⟨name, hname, ?_⟩
    rw [hmiddle] at hlow hbeaten
    generalize u.value? name = own at hlow ⊢
    generalize w.value? name = stored at hbeaten ⊢
    match own, stored with
    | some own, some stored => exact lt_of_le_of_lt (α := Value) hlow hbeaten
    | none, some stored => trivial
    | _, none => cases hbeaten

end Version

end PartitionKeys
