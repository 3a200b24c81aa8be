/-
# The sealed rule, position by position

Two lists of values are compared from the first position on.  A proposed value yields to the
stored one unless both are there and the proposed one is above it, or of another type.  The
first value that does not yield settles the comparison; if all of them do, the proposed values
lose or tie.

Where no position holds values of two types, the order of the positions makes no difference:
the proposed values win if one of them is above the stored one, lose if none is and some stored
value is above the proposed one, or stands where there is none, and tie otherwise.
-/
import PartitionKeys.Proofs.Version.Dominance

namespace PartitionKeys

namespace Sealed

/-- The proposed value of a position is above the stored one. -/
def Wins : Option Value × Option Value → Prop
  | (some own, some stored) => stored < own
  | _ => False

variable {names : List String} {lost : Bool} {pairs : List (Option Value × Option Value)}
  {pair : Option Value × Option Value} {own stored : List (Option Value)} {v w : Value} {i : Nat}

lemma yields_iff : Yields pair ↔ Typed pair ∧ ¬Wins pair := by
  match pair with
  | (some v, some w) =>
    constructor
    · intro hle
      exact ⟨Value.type_eq_of_le hle, (not_lt_of_ge (α := Value) hle ·)⟩
    · rintro ⟨htype, hnot⟩
      exact (Value.lt_or_ge_of_type_eq htype.symm).resolve_left hnot
  | (none, some w) => exact ⟨fun _ => ⟨trivial, id⟩, fun _ => trivial⟩
  | (v, none) => cases v <;> exact ⟨fun _ => ⟨trivial, id⟩, fun _ => trivial⟩

lemma exists_of_not_yields (h : ¬Yields pair) :
    ∃ v w, pair = (some v, some w) ∧ ¬v ≤ w := by
  match pair, h with
  | (some v, some w), h => exact ⟨v, w, rfl, h⟩
  | (none, some w), h => exact absurd trivial h
  | (v, none), h => cases v <;> exact absurd trivial h

/-! ## The position that settles -/

/-- A position holds these two values, and all proposed values before it yield. -/
structure FirstAt (pairs : List (Option Value × Option Value)) (i : Nat) (v w : Value) : Prop where
  values : pairs[i]? = some (some v, some w)
  before : ∀ pair ∈ pairs.take i, Yields pair

lemma FirstAt.cons (h : FirstAt pairs i v w) (hyields : Yields pair) :
    FirstAt (pair :: pairs) (i + 1) v w where
  values := h.values
  before := by
    rw [List.take_succ_cons]
    exact List.forall_mem_cons.2 ⟨hyields, h.before⟩

/-- Either all proposed values yield, or one of them is the first that does not. -/
lemma yields_or_firstAt (pairs : List (Option Value × Option Value)) :
    (∀ pair ∈ pairs, Yields pair) ∨ ∃ i v w, FirstAt pairs i v w ∧ ¬v ≤ w := by
  induction pairs with
  | nil => exact .inl (List.forall_mem_nil _)
  | cons pair rest ih =>
    by_cases hyields : Yields pair
    · rcases ih with hrest | ⟨i, v, w, hfirst, hnot⟩
      · exact .inl (List.forall_mem_cons.2 ⟨hyields, hrest⟩)
      · exact .inr ⟨i + 1, v, w, hfirst.cons hyields, hnot⟩
    · obtain ⟨v, w, rfl, hnot⟩ := exists_of_not_yields hyields
      exact .inr ⟨0, v, w, ⟨rfl, List.forall_mem_nil _⟩, hnot⟩

/-- Values that yield are passed over, whatever they make of the comparison so far. -/
lemma exists_compareFrom_cons (names : List String) (lost : Bool) (hyields : Yields pair)
    (rest : List (Option Value × Option Value)) :
    ∃ lost', compareFrom names lost (pair :: rest) = compareFrom names.tail lost' rest := by
  match pair, hyields with
  | (own, none), _ => exact ⟨lost, by rw [compareFrom]⟩
  | (none, some stored), _ => exact ⟨true, by rw [compareFrom]⟩
  | (some own, some stored), hle =>
    rw [compareFrom_cons_some, compareIn]
    rcases lt_or_eq_of_le (α := Value) hle with hlt | rfl
    · exact ⟨true, by rw [Value.compare?_lt_iff.2 hlt]⟩
    · exact ⟨lost, by rw [Value.compare?_eq_iff.2 rfl]⟩

/-- The first value that does not yield settles the comparison. -/
lemma compareFrom_of_firstAt (names : List String) (lost : Bool) (h : FirstAt pairs i v w)
    (hnot : ¬v ≤ w) :
    compareFrom names lost pairs =
      (compareIn (names[i]?.getD "?") w v).map fun _ => Ordering.gt := by
  induction i generalizing names lost pairs with
  | zero =>
    obtain ⟨rest, rfl⟩ := List.head?_eq_some_iff.1 (List.head?_eq_getElem? ▸ h.values)
    rw [compareFrom_cons_some, ← List.head?_eq_getElem?]
    have hcompared := compareIn_compared (names.head?.getD "?") w v
    generalize compareIn (names.head?.getD "?") w v = answer at hcompared ⊢
    cases hcompared with
    | less hlt => exact absurd hlt.le hnot
    | equal heq => exact absurd heq.le hnot
    | greater => rfl
    | mismatch => rfl
  | succ i ih =>
    match pairs, h with
    | pair :: rest, h =>
      have hbefore := List.forall_mem_cons.1 (List.take_succ_cons ▸ h.before)
      obtain ⟨lost', heq⟩ := exists_compareFrom_cons names lost hbefore.1 rest
      rw [heq, ih names.tail lost' ⟨h.values, hbefore.2⟩, List.getElem?_tail]

/-- The proposed values tie if all of them yield and none is missing or smaller. -/
lemma compareFrom_eq_eq (hyields : ∀ pair ∈ pairs, Yields pair)
    (hnot : ∀ pair ∈ pairs, ¬Beaten pair) : compareFrom names false pairs = .ok .eq := by
  induction pairs generalizing names with
  | nil => rfl
  | cons pair rest ih =>
    obtain ⟨hpair, hrest⟩ := List.forall_mem_cons.1 hyields
    obtain ⟨hpair', hrest'⟩ := List.forall_mem_cons.1 hnot
    match pair, hpair, hpair' with
    | (own, none), _, _ => rw [compareFrom, ih hrest hrest']
    | (none, some stored), _, hpair' => exact absurd trivial hpair'
    | (some own, some stored), hle, hpair' =>
      obtain rfl : own = stored := eq_of_le_of_not_lt (α := Value) hle hpair'
      rw [compareFrom_cons_some, compareIn, Value.compare?_eq_iff.2 rfl]
      exact ih hrest hrest'

/-! ## What a comparison answers -/

/-- What comes of comparing two lists of values. -/
inductive Compares (names : List String) (own stored : List (Option Value)) :
    Except ComparisonError Ordering → Prop
  | uneven (hne : own.length ≠ stored.length) :
    Compares names own stored (.error (.arityMismatch stored.length own.length))
  | clash {i : Nat} {v w : Value} (even : own.length = stored.length)
    (first : FirstAt (own.zip stored) i v w) (htype : v.type ≠ w.type) :
    Compares names own stored (.error (.typeMismatch (names[i]?.getD "?") w.type v.type))
  | wins {i : Nat} {v w : Value} (even : own.length = stored.length)
    (first : FirstAt (own.zip stored) i v w) (hlt : w < v) : Compares names own stored (.ok .gt)
  | loses (even : own.length = stored.length) (yields : ∀ pair ∈ own.zip stored, Yields pair)
    (beaten : ∃ pair ∈ own.zip stored, Beaten pair) : Compares names own stored (.ok .lt)
  | ties (even : own.length = stored.length) (yields : ∀ pair ∈ own.zip stored, Yields pair)
    (unbeaten : ∀ pair ∈ own.zip stored, ¬Beaten pair) : Compares names own stored (.ok .eq)

lemma compare_of_even (names : List String) (even : own.length = stored.length) :
    Sealed.compare own stored names = compareFrom names false (own.zip stored) := if_pos even

lemma Compares.compare_eq {answer : Except ComparisonError Ordering}
    (h : Compares names own stored answer) : Sealed.compare own stored names = answer := by
  cases h with
  | uneven hne => exact if_neg hne
  | clash even first htype =>
    have hnot := mt Value.type_eq_of_le htype
    rw [compare_of_even names even, compareFrom_of_firstAt names false first hnot, compareIn,
      Value.compare?_eq_none_iff.2 htype]
    rfl
  | wins even first hlt =>
    rw [compare_of_even names even, compareFrom_of_firstAt names false first hlt.not_ge, compareIn,
      Value.compare?_gt_iff.2 hlt]
    rfl
  | loses even yields beaten =>
    rw [compare_of_even names even, compareFrom_eq_lt_iff]
    exact ⟨yields, .inr beaten⟩
  | ties even yields unbeaten => rw [compare_of_even names even, compareFrom_eq_eq yields unbeaten]

lemma exists_compares (names : List String) (own stored : List (Option Value)) :
    ∃ answer, Compares names own stored answer := by
  by_cases even : own.length = stored.length
  · rcases yields_or_firstAt (own.zip stored) with yields | ⟨i, v, w, first, hnot⟩
    · by_cases beaten : ∃ pair ∈ own.zip stored, Beaten pair
      · exact ⟨_, .loses even yields beaten⟩
      · exact ⟨_, .ties even yields fun pair hmem h => beaten ⟨pair, hmem, h⟩⟩
    · by_cases htype : v.type = w.type
      · have hlt := (Value.lt_or_ge_of_type_eq htype.symm).resolve_right hnot
        exact ⟨_, .wins even first hlt⟩
      · exact ⟨_, .clash even first htype⟩
  · exact ⟨_, .uneven even⟩

lemma compare_eq_iff {answer : Except ComparisonError Ordering} :
    Sealed.compare own stored names = answer ↔ Compares names own stored answer := by
  refine ⟨?_, Compares.compare_eq⟩
  rintro rfl
  obtain ⟨answer, h⟩ := exists_compares names own stored
  rwa [h.compare_eq]

/-! ## Values of one type in each position -/

/-- What comes of comparing values of one type in each position, in whatever order. -/
inductive Verdict (pairs : List (Option Value × Option Value)) : Ordering → Prop
  | wins (h : ∃ pair ∈ pairs, Wins pair) : Verdict pairs .gt
  | loses (h : ∀ pair ∈ pairs, ¬Wins pair) (beaten : ∃ pair ∈ pairs, Beaten pair) :
    Verdict pairs .lt
  | ties (h : ∀ pair ∈ pairs, ¬Wins pair) (unbeaten : ∀ pair ∈ pairs, ¬Beaten pair) :
    Verdict pairs .eq

namespace Verdict

variable {order order' : Ordering}

lemma unique (h : Verdict pairs order) (h' : Verdict pairs order') : order = order' := by
  cases h with
  | wins h =>
    obtain ⟨pair, hmem, hwins⟩ := h
    cases h' with
    | wins => rfl
    | loses hnot | ties hnot => exact absurd hwins (hnot pair hmem)
  | loses hnot beaten =>
    obtain ⟨pair, hmem, hbeaten⟩ := beaten
    cases h' with
    | wins h => exact absurd h fun ⟨pair, hmem, hwins⟩ => hnot pair hmem hwins
    | loses => rfl
    | ties _ unbeaten => exact absurd hbeaten (unbeaten pair hmem)
  | ties hnot unbeaten =>
    cases h' with
    | wins h => exact absurd h fun ⟨pair, hmem, hwins⟩ => hnot pair hmem hwins
    | loses _ beaten => exact absurd beaten fun ⟨pair, hmem, h⟩ => unbeaten pair hmem h
    | ties => rfl

lemma perm {pairs' : List (Option Value × Option Value)} (h : Verdict pairs order)
    (hperm : pairs'.Perm pairs) : Verdict pairs' order := by
  cases h with
  | wins h => exact .wins (by simpa only [hperm.mem_iff] using h)
  | loses h beaten =>
    exact .loses (by simpa only [hperm.mem_iff] using h)
      (by simpa only [hperm.mem_iff] using beaten)
  | ties h unbeaten =>
    exact .ties (by simpa only [hperm.mem_iff] using h)
      (by simpa only [hperm.mem_iff] using unbeaten)

end Verdict

lemma Compares.verdict {answer : Except ComparisonError Ordering}
    (h : Compares names own stored answer) (even : own.length = stored.length)
    (typed : ∀ pair ∈ own.zip stored, Typed pair) :
    ∃ order, answer = .ok order ∧ Verdict (own.zip stored) order := by
  cases h with
  | uneven hne => exact absurd even hne
  | clash _ first htype => exact absurd (typed _ (List.mem_of_getElem? first.values)) htype
  | wins _ first hlt => exact ⟨.gt, rfl, .wins ⟨_, List.mem_of_getElem? first.values, hlt⟩⟩
  | loses _ yields beaten =>
    exact ⟨.lt, rfl, .loses (fun pair hmem => (yields_iff.1 (yields pair hmem)).2) beaten⟩
  | ties _ yields unbeaten =>
    exact ⟨.eq, rfl, .ties (fun pair hmem => (yields_iff.1 (yields pair hmem)).2) unbeaten⟩

/-- Another order of the positions changes nothing, whatever the positions are called. -/
lemma compare_perm {own' stored' : List (Option Value)} (names names' : List String)
    (even : own.length = stored.length) (even' : own'.length = stored'.length)
    (typed : ∀ pair ∈ own.zip stored, Typed pair)
    (hperm : (own'.zip stored').Perm (own.zip stored)) :
    Sealed.compare own' stored' names' = Sealed.compare own stored names := by
  have typed' : ∀ pair ∈ own'.zip stored', Typed pair :=
    fun pair hmem => typed pair (hperm.mem_iff.1 hmem)
  have hcompares : Compares names own stored _ := compare_eq_iff.1 rfl
  have hcompares' : Compares names' own' stored' _ := compare_eq_iff.1 rfl
  obtain ⟨order, heq, verdict⟩ := hcompares.verdict even typed
  obtain ⟨order', heq', verdict'⟩ := hcompares'.verdict even' typed'
  rw [heq, heq', verdict'.unique (verdict.perm hperm)]

end Sealed

namespace Version

variable {own stored : Version} {names : List String}

/-- On values of one type in each column, a version loses exactly if a stored value wins and none
of its own does. -/
lemma loses_iff (typed : ∀ name ∈ names, Sealed.Typed (own.value? name, stored.value? name)) :
    own.Loses names stored ↔
      (∃ name ∈ names, Sealed.Beaten (own.value? name, stored.value? name)) ∧
        ∀ name ∈ names, ¬Sealed.Wins (own.value? name, stored.value? name) := by
  constructor
  · intro h
    exact ⟨h.beaten, fun name hname => (Sealed.yields_iff.1 (h.yields name hname)).2⟩
  · rintro ⟨hbeaten, hnot⟩
    exact ⟨fun name hname => Sealed.yields_iff.2 ⟨typed name hname, hnot name hname⟩, hbeaten⟩

/-- A version that is accepted is held as it is. -/
lemma eq_of_decideSealed {version : Version}
    (h : own.decideSealed stored names = .ok (.supersede version)) : version = own := by
  rw [decideSealed_eq] at h
  split at h <;> cases h
  rfl

/-- Two versions with values in all columns do not lose to each other. -/
lemma Loses.asymm (full : ∀ name ∈ names, own.value? name ≠ none) (h : own.Loses names stored) :
    ¬stored.Loses names own := by
  intro hback
  obtain ⟨name, hname, hbeaten⟩ := h.beaten
  have hyields := hback.yields name hname
  obtain ⟨v, hv⟩ := Option.ne_none_iff_exists'.1 (full name hname)
  rw [hv] at hbeaten hyields
  generalize stored.value? name = other at hbeaten hyields
  match other with
  | some w => exact absurd hbeaten (not_lt_of_ge (α := Value) hyields)
  | none => exact hbeaten

/-- **The sealed rule is dominance.**  Two lists of values are compared up to the first position
where both are there and the proposed one is above the stored one or of another type.  With one
type in each position the order of the positions makes no difference, and a version is turned
away exactly if a stored value wins and none of its own does; otherwise it is held as it is.
Without nulls, two versions do not turn each other away. -/
theorem sealed_rule_is_dominance :
    (∀ names own stored answer,
      Sealed.compare own stored names = answer ↔ Sealed.Compares names own stored answer) ∧
    (∀ names names' own stored own' stored', own.length = stored.length →
      own'.length = stored'.length → (∀ pair ∈ own.zip stored, Sealed.Typed pair) →
      (own'.zip stored').Perm (own.zip stored) →
      Sealed.compare own' stored' names' = Sealed.compare own stored names) ∧
    (∀ (own stored : Version) (names : List String),
      (∀ name ∈ names, Sealed.Typed (own.value? name, stored.value? name)) →
      (own.decideSealed stored names = .ok .reject ∨
        own.decideSealed stored names = .ok (.supersede own)) ∧
      (own.decideSealed stored names = .ok .reject ↔
        (∃ name ∈ names, Sealed.Beaten (own.value? name, stored.value? name)) ∧
          ∀ name ∈ names, ¬Sealed.Wins (own.value? name, stored.value? name))) ∧
    (∀ (own stored version : Version) (names : List String),
      own.decideSealed stored names = .ok (.supersede version) → version = own) ∧
    (∀ (own stored : Version) (names : List String),
      (∀ name ∈ names, own.value? name ≠ none ∧ stored.value? name ≠ none) →
      ¬(own.decideSealed stored names = .ok .reject ∧
        stored.decideSealed own names = .ok .reject)) := by
  refine ⟨fun _ _ _ _ => Sealed.compare_eq_iff,
    fun names names' _ _ _ _ even even' typed hperm =>
      Sealed.compare_perm names names' even even' typed hperm,
    fun own stored names typed => ⟨?_, ?_⟩, fun _ _ _ _ h => eq_of_decideSealed h, ?_⟩
  · rw [decideSealed_eq_reject_iff]
    exact loses_or_supersedes typed
  · rw [decideSealed_eq_reject_iff, loses_iff typed]
  · rintro own stored names full ⟨hreject, hback⟩
    rw [decideSealed_eq_reject_iff] at hreject hback
    exact hreject.asymm (fun name hname => (full name hname).1) hback

end Version

namespace Sample

/-- The columns of the versions below. -/
def ranked : List String := ["at", "seq"]

/-- A version with a value in each column. -/
def held : Version := ⟨[("at", .full (.int 1)), ("seq", .full (.int 3))]⟩

/-- A version without a time that is no larger. -/
def untimed : Version := ⟨[("seq", .full (.int 3)), ("at", .null .int)]⟩

/-- A version with a later time and a smaller number. -/
def crossing : Version := ⟨[("at", .full (.int 2)), ("seq", .full (.int 1))]⟩

end Sample

open Sample in
/-- A clash behind the names, a comparison backwards, a version that loses for want of a time, and
two versions that win against each other. -/
theorem sealed_rule_is_dominance_ranked :
    Sealed.Compares ranked [none, none, some (.int 1)]
      [some (.int 4), none, some (.string "x")] (.error (.typeMismatch "?" .string .int)) ∧
    Sealed.compare (untimed.project ranked.reverse) (held.project ranked.reverse) [] =
      Sealed.compare (untimed.project ranked) (held.project ranked) ranked ∧
    (untimed.decideSealed held ranked = .ok .reject ↔
      (∃ name ∈ ranked, Sealed.Beaten (untimed.value? name, held.value? name)) ∧
        ∀ name ∈ ranked, ¬Sealed.Wins (untimed.value? name, held.value? name)) ∧
    (∃ version, crossing.decideSealed held ranked = .ok (.supersede version) ∧
      version = crossing) ∧
    ¬(crossing.decideSealed held ranked = .ok .reject ∧
      held.decideSealed crossing ranked = .ok .reject) := by
  obtain ⟨hcompare, hperm, hreject, hunmerged, hnot⟩ := Version.sealed_rule_is_dominance
  have haccepted : crossing.decideSealed held ranked = .ok (.supersede crossing) := by
    decide +kernel
  refine ⟨(hcompare _ _ _ _).1 (by decide +kernel), hperm ranked [] _ _ _ _ rfl rfl ?_ ?_,
    (hreject untimed held ranked ?_).2, ⟨crossing, haccepted, hunmerged _ _ _ _ haccepted⟩,
    hnot crossing held ranked (by decide +kernel)⟩
  · simp [ranked, untimed, held, Version.project, Version.value?, Version.get?, List.lookup_cons,
      Cell.value?, Sealed.Typed, Value.type]
  · exact List.Perm.swap _ _ []
  · simp [ranked, untimed, held, Version.value?, Version.get?, List.lookup_cons, Cell.value?,
      Sealed.Typed, Value.type]

end PartitionKeys
