/-
# The join is column-wise

With null and absence below every value, the join of two versions has in each column the larger
of their two values.  It exists unless the versions have values of different types in some
column, and then the first such column of the proposed version is reported.  Columns that are
null or absent on both sides show nothing of that order: there the proposed placeholder stays.

Where all values of a column are of one type, joins always exist, and the values of a join
depend neither on the order of the joined versions nor on how they are grouped.
-/
import PartitionKeys.Proofs.Version.Growth
import Mathlib.Data.List.Forall2
import Mathlib.Order.Bounds.Basic
import Mathlib.Order.WithBot

namespace PartitionKeys

/-! ## Joining two cells -/

/-- The value of a cell that may be absent, where null and absence are below every value. -/
def Cell.level (cell : Option Cell) : WithBot Value := cell.bind Cell.value?

namespace Version

/-- What the join of a proposed cell with a stored one can be. -/
inductive CellJoin (column : String) (own : Cell) (stored : Option Cell) :
    Except ComparisonError Cell → Prop
  | kept (h : Cell.level stored ≤ Cell.level (some own)) : CellJoin column own stored (.ok own)
  | taken {cell : Cell} (hstored : stored = some cell)
    (h : Cell.level (some own) < Cell.level stored) : CellJoin column own stored (.ok cell)
  | clash {held new : Value} (hheld : Cell.level stored = held)
    (hnew : Cell.level (some own) = new) (htype : new.type ≠ held.type) :
    CellJoin column own stored (.error (.typeMismatch column held.type new.type))

lemma joinCell_cellJoin (column : String) (own : Cell) (stored : Option Cell) :
    CellJoin column own stored (joinCell column own stored) := by
  match stored, own with
  | none, own => exact .kept bot_le
  | some (.null _), .null _ | some (.null _), .full _ => exact .kept bot_le
  | some (.full held), .null _ => exact .taken rfl (WithBot.bot_lt_coe held)
  | some (.full held), .full new =>
    have hcompared := compareIn_compared column held new
    unfold joinCell
    simp only [Cell.value?]
    generalize compareIn column held new = answer at hcompared ⊢
    cases hcompared with
    | less h => exact .taken rfl (WithBot.coe_lt_coe.2 h)
    | equal h => exact .kept (WithBot.coe_le_coe.2 h.ge)
    | greater h => exact .kept (WithBot.coe_le_coe.2 h.le)
    | mismatch h => exact .clash rfl rfl h

lemma isGreatest_pair_of_le {a b : WithBot Value} (h : b ≤ a) : IsGreatest {a, b} a := by
  refine ⟨.inl rfl, ?_⟩
  rintro _ (rfl | rfl)
  · exact le_rfl
  · exact h

/-- The join of two cells has the larger of their values. -/
lemma isGreatest_joinCell {column : String} {own cell : Cell} {stored : Option Cell}
    (h : joinCell column own stored = .ok cell) :
    IsGreatest {Cell.level (some own), Cell.level stored} (Cell.level (some cell)) := by
  have hjoin := joinCell_cellJoin column own stored
  rw [h] at hjoin
  cases hjoin with
  | kept hle => exact isGreatest_pair_of_le hle
  | taken hstored hlt =>
    subst hstored
    rw [Set.pair_comm]
    exact isGreatest_pair_of_le hlt.le

/-- Joined once more with what it has given, the proposed cell gives it again. -/
lemma joinCell_again {column : String} {own cell : Cell} {stored : Option Cell}
    (h : joinCell column own stored = .ok cell) : joinCell column own (some cell) = .ok cell := by
  have hle := (isGreatest_joinCell h).2 (.inl rfl)
  have hagain := joinCell_cellJoin column own (some cell)
  generalize joinCell column own (some cell) = answer at hagain ⊢
  cases hagain with
  | kept hge =>
    -- a cell that is not above the proposed one was not taken from the stored version
    have hjoin := joinCell_cellJoin column own stored
    rw [h] at hjoin
    cases hjoin with
    | kept => rfl
    | taken hstored hlt =>
      subst hstored
      exact absurd hge hlt.not_ge
  | taken heq => rw [Option.some.inj heq]
  | clash hheld hnew htype =>
    rw [hheld, hnew, WithBot.coe_le_coe] at hle
    exact absurd (Value.type_eq_of_le hle) htype

/-! ## Joining the columns one by one -/

lemma joinColumns_eq_ok_iff {stored : Version} {columns joined : Assoc String Cell} :
    joinColumns stored columns = .ok joined ↔
      List.Forall₂ (fun own cell => own.1 = cell.1 ∧
        joinCell own.1 own.2 (stored.get? own.1) = .ok cell.2) columns joined := by
  induction columns generalizing joined with
  | nil => simp [joinColumns, eq_comm]
  | cons column rest ih =>
    obtain ⟨name, own⟩ := column
    rw [List.forall₂_cons_left_iff]
    constructor
    · intro h
      obtain ⟨cell, hcell, h⟩ := bind_eq_ok h
      obtain ⟨joinedRest, hrest, h⟩ := bind_eq_ok h
      cases h
      exact ⟨(name, cell), joinedRest, ⟨rfl, hcell⟩, ih.1 hrest, rfl⟩
    · rintro ⟨⟨_, cell⟩, joinedRest, ⟨rfl, hcell⟩, hrest, rfl⟩
      unfold joinColumns
      rw [hcell, ih.2 hrest]
      rfl

/-- Joining fails in the first column whose cells cannot be joined. -/
lemma joinColumns_eq_error {stored : Version} {columns : Assoc String Cell} {e : ComparisonError}
    (h : joinColumns stored columns = .error e) :
    ∃ before name own after, columns = before ++ (name, own) :: after ∧
      joinCell name own (stored.get? name) = .error e ∧
      ∀ column ∈ before, ∃ cell, joinCell column.1 column.2 (stored.get? column.1) = .ok cell := by
  induction columns with
  | nil => cases h
  | cons column rest ih =>
    obtain ⟨name, own⟩ := column
    rcases bind_eq_error h with hcell | ⟨cell, hcell, h⟩
    · exact ⟨[], name, own, rest, rfl, hcell, nofun⟩
    rcases bind_eq_error h with hrest | ⟨joined, -, h⟩
    · obtain ⟨before, other, own', after, rfl, herror, hbefore⟩ := ih hrest
      refine ⟨(name, own) :: before, other, own', after, rfl, herror, ?_⟩
      rintro column (_ | ⟨_, hmem⟩)
      · exact ⟨cell, hcell⟩
      · exact hbefore column hmem
    · cases h

lemma join_eq_ok_iff {proposed stored joined : Version} :
    proposed.join stored = .ok joined ↔
      ∃ columns, joinColumns stored proposed.columns = .ok columns ∧
        joined = ⟨columns ++
          stored.columns.filter fun column => (proposed.get? column.1).isNone⟩ := by
  constructor
  · intro h
    obtain ⟨columns, hcolumns, h⟩ := bind_eq_ok h
    cases h
    exact ⟨columns, hcolumns, rfl⟩
  · rintro ⟨columns, hcolumns, rfl⟩
    unfold join
    rw [hcolumns]
    rfl

lemma join_eq_error {proposed stored : Version} {e : ComparisonError}
    (h : proposed.join stored = .error e) : joinColumns stored proposed.columns = .error e := by
  rcases bind_eq_error h with h | ⟨columns, -, h⟩
  · exact h
  · cases h

/-! ## Clashes -/

/-- The value of a column, where null and absence are below every value. -/
def level (v : Version) (name : String) : WithBot Value := Cell.level (v.get? name)

lemma level_eq_coe_iff {v : Version} {name : String} {value : Value} :
    v.level name = value ↔ v.value? name = some value := Iff.rfl

/-- Two versions clash in a column if they have values of different types there. -/
structure Clash (proposed stored : Version) (name : String) (held new : Value) : Prop where
  held_eq : stored.value? name = some held
  new_eq : proposed.value? name = some new
  type_ne : new.type ≠ held.type

/-- A clash is the first one if there is none in a column that the proposed version has before. -/
structure FirstClash (proposed stored : Version) (name : String) (held new : Value) : Prop
    extends Clash proposed stored name held new where
  first : ∃ before after, proposed.columns.keys = before ++ name :: after ∧
    ∀ earlier ∈ before, ∀ held new, ¬proposed.Clash stored earlier held new

/-- Values that clash have no larger one. -/
lemma Clash.not_isGreatest {proposed stored : Version} {name : String} {held new : Value}
    (h : proposed.Clash stored name held new) (largest : WithBot Value) :
    ¬IsGreatest {proposed.level name, stored.level name} largest := by
  intro hgreatest
  have hnew := hgreatest.2 (.inl rfl)
  have hheld := hgreatest.2 (.inr rfl)
  rw [level_eq_coe_iff.2 h.new_eq] at hgreatest hnew
  rw [level_eq_coe_iff.2 h.held_eq] at hgreatest hheld
  rcases hgreatest.1 with rfl | rfl
  · exact h.type_ne (Value.type_eq_of_le (WithBot.coe_le_coe.1 hheld)).symm
  · exact h.type_ne (Value.type_eq_of_le (WithBot.coe_le_coe.1 hnew))

/-! ## The join of two versions -/

/-- A version is the column-wise join of two versions.  It has the proposed names and then those
that only the stored version has, in each column the larger value, and keeps the proposed null
of a column without a value. -/
structure IsJoin (proposed stored joined : Version) : Prop where
  names : joined.columns.keys = proposed.columns.keys ++
    stored.columns.keys.filter fun name => name ∉ proposed.columns.keys
  values : ∀ name, IsGreatest {proposed.level name, stored.level name} (joined.level name)
  placeholders : ∀ name type, proposed.get? name = some (.null type) →
    stored.value? name = none → joined.get? name = some (.null type)

lemma isGreatest_join {proposed stored joined : Version} (h : proposed.join stored = .ok joined)
    (name : String) :
    IsGreatest {proposed.level name, stored.level name} (joined.level name) := by
  unfold level
  rcases get?_join_cases h name with ⟨hown, hjoined⟩ | ⟨own, cell, hown, hcell, hjoined⟩
  · rw [hown, hjoined, Set.pair_comm]
    exact isGreatest_pair_of_le bot_le
  · rw [hown, hjoined]
    exact isGreatest_joinCell hcell

lemma isJoin_join {proposed stored joined : Version} (h : proposed.join stored = .ok joined) :
    proposed.IsJoin stored joined where
  names := by
    rw [keys_join h]
    congr 1
    refine List.filter_congr fun name _ => ?_
    rw [Bool.eq_iff_iff, Option.isNone_iff_eq_none, get?_eq_none_iff, decide_eq_true_iff]
  values := isGreatest_join h
  placeholders name type hnull hnone := by
    rcases get?_join_cases h name with ⟨hown, -⟩ | ⟨own, cell, hown, hcell, hjoined⟩
    · rw [hown] at hnull
      cases hnull
    obtain rfl : own = .null type := Option.some.inj (hown.symm.trans hnull)
    have hjoin := joinCell_cellJoin name (.null type) (stored.get? name)
    rw [hcell] at hjoin
    cases hjoin with
    | kept => exact hjoined
    | taken _ hlt =>
      -- without a value in the stored version there is nothing to be taken
      have hbot : Cell.level (stored.get? name) = ⊥ := hnone
      rw [hbot] at hlt
      exact absurd hlt not_lt_bot

/-- Where joining fails, there is a clash, and the first one is reported. -/
lemma firstClash_of_join {proposed stored : Version} (named : proposed.columns.keys.Nodup)
    {e : ComparisonError} (h : proposed.join stored = .error e) :
    ∃ name held new, proposed.FirstClash stored name held new ∧
      e = .typeMismatch name held.type new.type := by
  obtain ⟨before, name, own, after, hcolumns, hcell, hbefore⟩ :=
    joinColumns_eq_error (join_eq_error h)
  have hget {column : String × Cell} (hmem : column ∈ proposed.columns) :
      proposed.get? column.1 = some column.2 := (Assoc.mem_iff_lookup_eq named).1 hmem
  have hmem : (name, own) ∈ proposed.columns := by simp [hcolumns]
  have hown : proposed.get? name = some own := hget hmem
  have hjoin := joinCell_cellJoin name own (stored.get? name)
  rw [hcell] at hjoin
  cases hjoin with
  | @clash held new hheld hnew htype =>
  refine ⟨name, held, new, ⟨⟨hheld, ?_, htype⟩, ?_⟩, rfl⟩
  · rw [value?, hown]
    exact hnew
  · refine ⟨Assoc.keys before, Assoc.keys after, by simp [Assoc.keys, hcolumns], ?_⟩
    intro earlier hearlier held new hclash
    obtain ⟨column, hmem, rfl⟩ := List.mem_map.1 hearlier
    obtain ⟨cell, hcell⟩ := hbefore column hmem
    -- cells that can be joined have a larger one, and values that clash have none
    have hgreatest := isGreatest_joinCell hcell
    rw [← hget (by simp [hcolumns, hmem])] at hgreatest
    exact hclash.not_isGreatest _ hgreatest

/-- Joining fails exactly if there is a clash. -/
lemma join_eq_error_iff {proposed stored : Version} (named : proposed.columns.keys.Nodup) :
    (∃ e, proposed.join stored = .error e) ↔
      ∃ name held new, proposed.Clash stored name held new := by
  constructor
  · rintro ⟨e, h⟩
    obtain ⟨name, held, new, hfirst, -⟩ := firstClash_of_join named h
    exact ⟨name, held, new, hfirst.toClash⟩
  · rintro ⟨name, held, new, hclash⟩
    cases h : proposed.join stored with
    | error e => exact ⟨e, rfl⟩
    | ok joined => exact absurd (isGreatest_join h name) (hclash.not_isGreatest _)

/-! ## The laws of joining -/

/-- Joined once more with their join, the proposed columns give it again. -/
theorem join_again {proposed stored joined : Version} (named : proposed.columns.keys.Nodup)
    (hstored : stored.columns.keys.Nodup) (h : proposed.join stored = .ok joined) :
    proposed.join joined = .ok joined := by
  have hnodup := nodup_keys_join h named hstored
  obtain ⟨columns, hcolumns, rfl⟩ := join_eq_ok_iff.1 h
  have hkeys := keys_joinColumns hcolumns
  refine join_eq_ok_iff.2 ⟨columns, ?_, ?_⟩
  · rw [joinColumns_eq_ok_iff, List.forall₂_iff_zip] at hcolumns ⊢
    refine ⟨hcolumns.1, fun {own cell} hmem => ?_⟩
    obtain ⟨hname, hcell⟩ := hcolumns.2 hmem
    have hmem : cell ∈ columns ++ stored.columns.filter
        fun column => (proposed.get? column.1).isNone :=
      List.mem_append_left _ (List.of_mem_zip hmem).2
    have hget := (Assoc.mem_iff_lookup_eq hnodup).1 hmem
    refine ⟨hname, ?_⟩
    rw [hname, get?, hget, ← hname]
    exact joinCell_again hcell
  · -- the joined columns have proposed names, and those behind them have none
    have hown : columns.filter (fun column => (proposed.get? column.1).isNone) = [] := by
      refine List.filter_eq_nil_iff.2 fun column hmem hnone => ?_
      rw [Option.isNone_iff_eq_none, get?_eq_none_iff, ← hkeys] at hnone
      exact hnone (List.mem_map_of_mem hmem)
    rw [List.filter_append, hown, List.filter_filter]
    simp

/-- A version joined with itself is itself. -/
theorem join_self {v : Version} (named : v.columns.keys.Nodup) : v.join v = .ok v := by
  have hnil : empty.columns.keys.Nodup := List.nodup_nil
  have hempty : v.join empty = .ok v := by
    refine join_eq_ok_iff.2 ⟨v.columns, ?_, by simp [empty]⟩
    rw [joinColumns_eq_ok_iff, List.forall₂_same]
    exact fun column _ => ⟨rfl, rfl⟩
  exact join_again named hnil hempty

/-- Each value of a version is of the type of its column. -/
def HasTypes (types : String → ValueType) (v : Version) : Prop :=
  ∀ name value, v.value? name = some value → value.type = types name

variable {types : String → ValueType} {u v w : Version}

lemma hasTypes_of_columns
    (h : ∀ column ∈ v.columns, ∀ value, column.2 = .full value → value.type = types column.1) :
    v.HasTypes types :=
  fun _ value hvalue => h _ (mem_columns_of_value? hvalue) value rfl

lemma exists_join (named : u.columns.keys.Nodup) (hu : u.HasTypes types)
    (hv : v.HasTypes types) : ∃ joined, u.join v = .ok joined := by
  cases h : u.join v with
  | ok joined => exact ⟨joined, rfl⟩
  | error e =>
    obtain ⟨name, held, new, hclash⟩ := (join_eq_error_iff named).1 ⟨e, h⟩
    have htype := (hu name new hclash.new_eq).trans (hv name held hclash.held_eq).symm
    exact absurd htype hclash.type_ne

lemma HasTypes.join {joined : Version} (hu : u.HasTypes types) (hv : v.HasTypes types)
    (h : u.join v = .ok joined) : joined.HasTypes types := by
  intro name value hvalue
  have hgreatest := isGreatest_join h name
  rw [level_eq_coe_iff.2 hvalue] at hgreatest
  rcases hgreatest.1 with hown | hheld
  · exact hu name value hown.symm
  · exact hv name value hheld.symm

/-- What is above a join is what is above both versions. -/
lemma level_join_le_iff {joined : Version} (h : u.join v = .ok joined) (name : String)
    (bound : WithBot Value) :
    joined.level name ≤ bound ↔ u.level name ≤ bound ∧ v.level name ≤ bound := by
  rw [isLUB_le_iff (isGreatest_join h name).isLUB, mem_upperBounds]
  simp

/-- Versions with the same bounds have the same values. -/
lemma value?_eq_of_bounds (h : ∀ name bound, u.level name ≤ bound ↔ v.level name ≤ bound) :
    u.value? = v.value? := by
  funext name
  have hlevel : u.level name = v.level name := eq_of_forall_ge_iff (h name)
  exact hlevel

lemma value?_join_comm {uv vu : Version} (huv : u.join v = .ok uv) (hvu : v.join u = .ok vu) :
    uv.value? = vu.value? := by
  refine value?_eq_of_bounds fun name bound => ?_
  rw [level_join_le_iff huv, level_join_le_iff hvu, and_comm]

lemma value?_join_assoc {uv vw left right : Version} (huv : u.join v = .ok uv)
    (hvw : v.join w = .ok vw) (hleft : uv.join w = .ok left) (hright : u.join vw = .ok right) :
    left.value? = right.value? := by
  refine value?_eq_of_bounds fun name bound => ?_
  rw [level_join_le_iff hleft, level_join_le_iff hright, level_join_le_iff huv,
    level_join_le_iff hvw, and_assoc]

/-- Joining is a semilattice on three versions, where versions with the same values count as
one. -/
structure JoinLaws (u v w : Version) : Prop where
  idempotent : u.join u = .ok u
  commutative : ∃ uv vu, u.join v = .ok uv ∧ v.join u = .ok vu ∧ uv.value? = vu.value?
  associative : ∃ uv vw left right, u.join v = .ok uv ∧ v.join w = .ok vw ∧
    uv.join w = .ok left ∧ u.join vw = .ok right ∧ left.value? = right.value?

lemma joinLaws (hu : u.columns.keys.Nodup) (hv : v.columns.keys.Nodup)
    (utypes : u.HasTypes types) (vtypes : v.HasTypes types) (wtypes : w.HasTypes types) :
    JoinLaws u v w := by
  obtain ⟨uv, huv⟩ := exists_join hu utypes vtypes
  obtain ⟨vu, hvu⟩ := exists_join hv vtypes utypes
  obtain ⟨vw, hvw⟩ := exists_join hv vtypes wtypes
  obtain ⟨left, hleft⟩ := exists_join (nodup_keys_join huv hu hv) (utypes.join vtypes huv) wtypes
  obtain ⟨right, hright⟩ := exists_join hu utypes (vtypes.join wtypes hvw)
  exact ⟨join_self hu, ⟨uv, vu, huv, hvu, value?_join_comm huv hvu⟩,
    ⟨uv, vw, left, right, huv, hvw, hleft, hright, value?_join_assoc huv hvw hleft hright⟩⟩

/-- **The join is column-wise.**  Two versions have no join exactly if they have values of
different types in some column, and then the first such column of the proposed one is named with
both types.  Otherwise the join has the larger value in each column.  Where all values of a
column are of one type, joining is idempotent, and up to the values commutative and
associative. -/
theorem join_is_columnwise {proposed stored : Version} (hproposed : proposed.columns.keys.Nodup)
    (hstored : stored.columns.keys.Nodup) :
    ((∃ e, proposed.join stored = .error e) ↔
      ∃ name held new, proposed.Clash stored name held new) ∧
    (∀ e, proposed.join stored = .error e → ∃ name held new,
      proposed.FirstClash stored name held new ∧ e = .typeMismatch name held.type new.type) ∧
    (∀ joined, proposed.join stored = .ok joined → proposed.IsJoin stored joined) ∧
    ∀ types third, proposed.HasTypes types → stored.HasTypes types → third.HasTypes types →
      JoinLaws proposed stored third :=
  ⟨join_eq_error_iff hproposed, fun _ h => firstClash_of_join hproposed h,
    fun _ h => isJoin_join h, fun _ _ => joinLaws hproposed hstored⟩

end Version

namespace Sample

/-- A version with a zero behind a null. -/
def zero : Version :=
  ⟨[("n", .null .int), ("x", .full (.double ⟨0⟩)), ("s", .full (.string "b"))]⟩

/-- A version with the negative zero, which is the smaller one. -/
def negativeZero : Version :=
  ⟨[("t", .full (.timestamp 7)), ("x", .full (.double ⟨0x8000000000000000⟩)), ("n", .null .double)]⟩

/-- What the two have in each column. -/
def zeros : Version := ⟨zero.columns ++ [("t", .full (.timestamp 7))]⟩

/-- A version without a zero. -/
def wordy : Version := ⟨[("s", .full (.string "c")), ("x", .null .string)]⟩

/-- The types of the columns of these versions. -/
def columnType : String → ValueType
  | "x" => .double
  | "t" => .timestamp
  | "s" => .string
  | _ => .int

/-- A version that has values of other types in two columns. -/
def odd : Version := ⟨[("s", .full (.int 1)), ("x", .full (.string "0"))]⟩

end Sample

open Sample in
/-- The zero stays, behind its placeholder, and of two clashes the first is reported. -/
theorem join_is_columnwise_zeros :
    (zero.columns.keys.Nodup ∧ negativeZero.columns.keys.Nodup ∧ odd.columns.keys.Nodup) ∧
    zero.IsJoin negativeZero zeros ∧
    zero.JoinLaws negativeZero wordy ∧
    ∃ name held new, zero.FirstClash odd name held new ∧
      ComparisonError.typeMismatch "x" .string .double =
        .typeMismatch name held.type new.type := by
  have hzero : zero.columns.keys.Nodup := by decide
  have hnegative : negativeZero.columns.keys.Nodup := by decide
  have hodd : odd.columns.keys.Nodup := by decide
  obtain ⟨-, -, hjoin, hlaws⟩ := Version.join_is_columnwise hzero hnegative
  obtain ⟨-, hclash, -⟩ := Version.join_is_columnwise hzero hodd
  refine ⟨⟨hzero, hnegative, hodd⟩, hjoin _ (by decide +kernel), hlaws columnType wordy ?_ ?_ ?_,
    hclash (.typeMismatch "x" .string .double) (by decide +kernel)⟩
  all_goals
    apply Version.hasTypes_of_columns
    simp [zero, negativeZero, wordy, columnType, Value.type]

end PartitionKeys
