/-
Purpose: Queries on a table of the embedded store: conditions, order, offset and limit, with
  integers of 64 bits compared as doubles, and when the rows are those that were asked for
  (`embedded/esp32/platform/src/helix_db.c`).
Trusted boundary: none
Main exports: select_iff
-/
import HelixKit.Esp32.Deletion
import HelixKit.Lib.Float64
import HelixKit.Lib.Sorting
import Mathlib.Data.Char
import Mathlib.Data.List.Lex
import Mathlib.Order.WithBot

namespace HelixKit.Esp32.Db

open HelixKit.Sorting

/-! ### Columns -/

/-- A C string: the bytes before the one that ends it, one `Char` a byte. -/
abbrev Text := List Char

/-- A double; `none` is not a number. -/
abbrev Double := Option (WithBot (WithTop ℚ))

/-- The sign of what a comparison returns. It is zero also where one of the two is not a number. -/
def Double.order : Double → Double → Ordering
  | some a, some b => cmp a b
  | _, _ => .eq

/-- What a column of a row is read as. -/
inductive Field (Row : Type) where
  | i64 (get : Row → Int64)
  | f64 (get : Row → Double)
  | text (size : Nat) (get : Row → Text)

structure Column (Row : Type) where
  name : Text
  field : Field Row

/-- A table with its columns. -/
structure Schema (Row : Type) extends Table Row where
  columns : List (Column Row)

variable {Row : Type}

def Schema.find_col (s : Schema Row) (name : Text) : Option (Column Row) :=
  s.columns.find? (·.name = name)

/-- Read as a double for a comparison. -/
def toDouble (v : Int64) : Double := some ((Float64.ofInt v.toInt : ℚ) : WithTop ℚ)

/-- How the code compares two integers of 64 bits. -/
def asDoubles (a b : Int64) : Ordering := (toDouble a).order (toDouble b)

/-- How two integers compare. -/
def asIntegers (a b : Int64) : Ordering := cmp a.toInt b.toInt

def strncmp : Text → Text → Nat → Ordering
  | _, _, 0 => .eq
  | [], [], _ + 1 => .eq
  | [], _ :: _, _ + 1 => .lt
  | _ :: _, [], _ + 1 => .gt
  | a :: left, b :: right, size + 1 =>
    if a < b then .lt
    else if b < a then .gt
    else strncmp left right size

/-! ### Queries -/

inductive HdbOp where
  | eq
  | ne
  | lt
  | le
  | gt
  | ge
  | like
deriving Repr, DecidableEq

/-- `hdb_cond_t`. -/
structure Cond where
  column : Text
  op : HdbOp
  i : Int64 := 0
  f : Double := some 0
  s : Option Text := none

/-- `hdb_query_t`. A null query is the one in which nothing is set; a limit of 0 is none. -/
structure Query where
  conds : List Cond := []
  order_by : Option Text := none
  descending : Bool := false
  limit : Nat := 0
  offset : Nat := 0

def cmp_op : HdbOp → Ordering → Bool
  | .eq, order => order = .eq
  | .ne, order => order ≠ .eq
  | .lt, order => order = .lt
  | .le, order => order ≠ .gt
  | .gt, order => order = .gt
  | .ge, order => order ≠ .lt
  | .like, _ => false

section Compare

/-! The code compares integers with `asDoubles`; what is asked for is the same with `asIntegers`. -/

variable (i64 : Int64 → Int64 → Ordering)

def Cond.holds (s : Schema Row) (row : Row) (c : Cond) : Bool :=
  match s.find_col c.column with
  | none => false
  | some col =>
    match col.field with
    | .text size get =>
      if c.op = .like then
        match c.s with
        | none => false
        | some part => part <:+: get row
      else cmp_op c.op (strncmp (get row) (c.s.getD []) size)
    | .i64 get => if c.op = .like then false else cmp_op c.op (i64 (get row) c.i)
    | .f64 get => if c.op = .like then false else cmp_op c.op ((get row).order c.f)

def row_matches (s : Schema Row) (conds : List Cond) (row : Row) : Bool :=
  conds.all (Cond.holds i64 s row)

def Column.order (col : Column Row) (a b : Row) : Ordering :=
  match col.field with
  | .text size get => strncmp (get a) (get b) size
  | .i64 get => i64 (get a) (get b)
  | .f64 get => (get a).order (get b)

def row_cmp (col : Column Row) (descending : Bool) (a b : Row) : Ordering :=
  if descending then (col.order i64 a b).swap else col.order i64 a b

end Compare

/-- The rows after the offset, up to the limit. -/
def window (offset limit : Nat) (rows : List Row) : List Row :=
  if limit > 0 then (rows.drop offset).take limit else rows.drop offset

/-- The rows are sorted by the column of the query, if it names one. -/
def Schema.order_by (qsort : Qsort Row) (s : Schema Row) (q : Query) (rows : List Row) : List Row :=
  match q.order_by with
  | none => rows
  | some name =>
    if rows.length > 1 then
      match s.find_col name with
      | none => rows
      | some col => qsort.sort (row_cmp asDoubles col q.descending) rows
    else rows

/-- The matches are gathered up to `max_rows`, put into order, and cut to the window. -/
def Schema.hdb_select (qsort : Qsort Row) (s : Schema Row) (q : Query) (max_rows : Nat)
    (scan : List Key) (readable : Key → Bool) (db : Kvdb Row) : List Row :=
  let found := (scanRows s.toTable (row_matches asDoubles s q.conds) scan readable db).take max_rows
  window q.offset q.limit (s.order_by qsort q found)

/-! ### What is asked for -/

/-- These are the rows of the table, each once. -/
def Listed (t : Table Row) (db : Kvdb Row) (rows : List Row) : Prop :=
  ∃ keys : List Key, keys.Nodup ∧ (∀ key, key ∈ keys ↔ key ∈ matching t (fun _ => true) db) ∧
    keys.filterMap (fun key => (db.kvs key).bind (rowOf t)) = rows

/-- The order that a query asks for: that of its column, and of the ids when it names none. -/
def Schema.asked (s : Schema Row) (q : Query) (a b : Row) : Ordering :=
  match q.order_by with
  | some name =>
    match s.find_col name with
    | some col => row_cmp asIntegers col q.descending a b
    | none => .eq
  | none =>
    match s.find_col ['i', 'd'] with
    | some ⟨_, .i64 get⟩ => asIntegers (get a) (get b)
    | _ => .eq

/-- The rows are the window of the matches in the order that is asked for. -/
def Answer (s : Schema Row) (q : Query) (db : Kvdb Row) (result : List Row) : Prop :=
  ∃ rows sorted, Listed s.toTable db rows ∧
    sorted.Perm (rows.filter (row_matches asIntegers s q.conds)) ∧
    sorted.Pairwise (s.asked q · · ≠ .gt) ∧
    result = window q.offset q.limit sorted

/-! ### When it is answered -/

/-- The rows that a pass finds. -/
def tableRows (s : Schema Row) (scan : List Key) (readable : Key → Bool) (db : Kvdb Row) :
    List Row :=
  scanRows s.toTable (fun _ => true) scan readable db

/-- In the order of the pass, a row matches exactly when the code takes it to match and has room for
it. -/
def Fits (s : Schema Row) (conds : List Cond) (max_rows : Nat) (rows : List Row) : Prop :=
  ∀ before row after, rows = before ++ row :: after →
    (row_matches asIntegers s conds row = true ↔
      (before.filter (row_matches asDoubles s conds)).length < max_rows ∧
        row_matches asDoubles s conds row = true)

/-- Sorting by the column puts these rows into order: different integers do not become the same
double, and different doubles are not beside one that is not a number. -/
def Column.Sortable (col : Column Row) (rows : List Row) : Prop :=
  match col.field with
  | .text _ _ => True
  | .i64 get => ∀ a ∈ rows, ∀ b ∈ rows, toDouble (get a) = toDouble (get b) → get a = get b
  | .f64 get => (∃ row ∈ rows, get row = none) →
      ∀ a ∈ rows, ∀ b ∈ rows, ∀ x y, get a = some x → get b = some y → x = y

/-- The matches can be put into the order that is asked for, or are met in it. -/
def Sortable (s : Schema Row) (q : Query) (rows : List Row) : Prop :=
  match q.order_by with
  | some name => ∀ col, s.find_col name = some col → col.Sortable rows
  | none => rows.Pairwise (s.asked q · · ≠ .gt)

/-! ### Comparisons -/

theorem asDoubles_eq_cmp (a b : Int64) :
    asDoubles a b = cmp (Float64.ofInt a.toInt) (Float64.ofInt b.toInt) := by
  have mono : StrictMono fun i : ℤ => (((i : ℚ) : WithTop ℚ) : WithBot (WithTop ℚ)) :=
    fun i j lt => WithBot.coe_lt_coe.2 (WithTop.coe_lt_coe.2 (Int.cast_lt.2 lt))
  exact mono.cmp_map_eq _ _

theorem toDouble_inj {a b : Int64} :
    toDouble a = toDouble b ↔ Float64.ofInt a.toInt = Float64.ofInt b.toInt := by
  simp [toDouble]

/-- Comparing as doubles is comparing the integers, unless different ones become one double. -/
theorem asDoubles_eq_iff (a b : Int64) :
    asDoubles a b = asIntegers a b ↔ (toDouble a = toDouble b → a = b) := by
  rw [asDoubles_eq_cmp, asIntegers, toDouble_inj]
  constructor
  · intro same tie
    rw [tie, cmp_self_eq_eq] at same
    exact Int64.toInt_inj.1 ((cmp_eq_eq_iff _ _).1 same.symm)
  · intro separate
    rcases lt_trichotomy a.toInt b.toInt with lt | eq | gt
    · have below := lt_of_le_of_ne (Float64.ofInt_mono lt.le) fun tie => by
        rw [separate tie] at lt
        exact lt_irrefl _ lt
      rw [below.cmp_eq_lt, lt.cmp_eq_lt]
    · rw [eq, cmp_self_eq_eq, cmp_self_eq_eq]
    · have above := lt_of_le_of_ne (Float64.ofInt_mono gt.le) fun tie => by
        rw [separate tie.symm] at gt
        exact lt_irrefl _ gt
      rw [above.cmp_eq_gt, gt.cmp_eq_gt]

/-- Texts are compared in the order of a dictionary. -/
theorem strncmp_compares (a b : Text) (size : Nat) :
    (strncmp a b size).Compares (a.take size) (b.take size) := by
  fun_induction strncmp a b size with
  | case1 a b => exact rfl
  | case2 size => exact rfl
  | case3 b right size => exact List.Lex.nil
  | case4 a left size => exact List.Lex.nil
  | case5 a left b right size lt => exact List.Lex.rel lt
  | case6 a left b right size _ gt => exact List.Lex.rel gt
  | case7 a left b right size notLt notGt ih =>
    obtain rfl := le_antisymm (not_lt.1 notGt) (not_lt.1 notLt)
    rw [List.take_succ_cons, List.take_succ_cons]
    cases order : strncmp left right size with
    | lt | gt =>
      rw [order] at ih
      exact List.Lex.cons ih
    | eq =>
      rw [order] at ih
      exact congrArg (a :: ·) ih

/-! ### Sorting -/

section Column

variable {col : Column Row} {rows : List Row} (descending : Bool)

/-- Where sorting can order the rows, the code compares them as asked. -/
theorem Column.Sortable.order_eq (sortable : col.Sortable rows) :
    ∀ a ∈ rows, ∀ b ∈ rows, col.order asDoubles a b = col.order asIntegers a b := by
  intro a ha b hb
  cases col with
  | mk name field =>
    cases field with
    | text size get => rfl
    | f64 get => rfl
    | i64 get => exact (asDoubles_eq_iff _ _).2 (sortable a ha b hb)

theorem Column.Sortable.row_cmp_eq (sortable : col.Sortable rows) :
    ∀ a ∈ rows, ∀ b ∈ rows,
      row_cmp asDoubles col descending a b = row_cmp asIntegers col descending a b := by
  intro a ha b hb
  unfold row_cmp
  rw [sortable.order_eq a ha b hb]

/-- A comparison of doubles is consistent when none of them is not a number. -/
theorem consistent_numbers {get : Row → Double} (numbers : ∀ row ∈ rows, get row ≠ none) :
    Consistent (fun a b => (get a).order (get b)) rows := by
  refine (Consistent.of_cmp (fun row => (get row).getD ⊥) rows).congr ?_
  intro a ha b hb
  obtain ⟨x, left⟩ := Option.ne_none_iff_exists'.1 (numbers a ha)
  obtain ⟨y, right⟩ := Option.ne_none_iff_exists'.1 (numbers b hb)
  rw [left, right]
  rfl

theorem Column.Sortable.consistent (sortable : col.Sortable rows) :
    Consistent (row_cmp asDoubles col descending) rows := by
  have upward : Consistent (col.order asDoubles) rows := by
    cases col with
    | mk name field =>
      cases field with
      | text size get =>
        refine (Consistent.of_cmp (fun row => (get row).take size) rows).congr ?_
        exact fun a _ b _ => (strncmp_compares (get a) (get b) size).cmp_eq.symm
      | i64 get =>
        refine (Consistent.of_cmp (fun row => Float64.ofInt (get row).toInt) rows).congr ?_
        exact fun a _ b _ => asDoubles_eq_cmp _ _
      | f64 get =>
        by_cases numbers : ∀ row ∈ rows, get row ≠ none
        · exact consistent_numbers numbers
        · push Not at numbers
          have tied : ∀ a ∈ rows, ∀ b ∈ rows, (get a).order (get b) = .eq := by
            intro a ha b hb
            cases left : get a with
            | none => rfl
            | some x =>
              cases right : get b with
              | none => rfl
              | some y =>
                exact (cmp_eq_eq_iff x y).2 (sortable numbers a ha b hb x y left right)
          refine (Consistent.of_cmp (fun _ => ()) rows).congr fun a ha b hb => ?_
          exact (tied a ha b hb).trans (cmp_self_eq_eq ()).symm
  cases descending with
  | false => exact upward
  | true => exact upward.reverse

end Column

/-! ### Contents -/

/-- The content of the store, and how the iterator goes through it. -/
structure Content (Row : Type) where
  db : Kvdb Row
  order : List Key
  readable : Key → Bool := fun _ => true
  scanned : db.Scanned order readable

section Content

variable (s : Schema Row) (q : Query) (max_rows : Nat) (c : Content Row)

def Content.rows : List Row := tableRows s c.order c.readable c.db

/-- A pass lists the rows of the table. -/
theorem listed_rows : Listed s.toTable c.db (c.rows s) := by
  classical
  refine ⟨c.order.filter (· ∈ matching s.toTable (fun _ => true) c.db), c.scanned.nodup.filter _,
    fun key => ?_, ?_⟩
  · simp only [List.mem_filter, decide_eq_true_eq, and_iff_right_iff_imp]
    rintro ⟨-, row, held, -⟩
    refine (c.scanned.found key).2 fun none => ?_
    rw [none] at held
    cases held
  · rw [Content.rows, tableRows, scanRows, List.filterMap_filter]
    refine List.filterMap_congr fun key _ => ?_
    have read : c.db.get_blob key (c.readable key) = c.db.kvs key := by
      rw [Kvdb.get_blob, c.scanned.read key, if_pos rfl]
    rw [read]
    cases isRow : isRowKey s.toTable key with
    | false => simp [matching, isRow]
    | true =>
      cases held : (c.db.kvs key).bind (rowOf s.toTable) with
      | none => simp [matching, held]
      | some row => simp [matching, isRow, held, Option.filter]

/-- There is one way to list the rows, but for their order. -/
theorem Listed.perm {t : Table Row} {db : Kvdb Row} {rows others : List Row}
    (listed : Listed t db rows) (again : Listed t db others) : rows.Perm others := by
  obtain ⟨keys, nodup, each, rfl⟩ := listed
  obtain ⟨keys', nodup', each', rfl⟩ := again
  refine List.Perm.filterMap _ ((List.perm_ext_iff_of_nodup nodup nodup').2 fun key => ?_)
  rw [each, each']

theorem scanRows_eq_filter (accept : Row → Bool) :
    scanRows s.toTable accept c.order c.readable c.db = (c.rows s).filter accept := by
  rw [Content.rows, tableRows, scanRows, scanRows, List.filter_filterMap]
  refine List.filterMap_congr fun key _ => ?_
  cases isRowKey s.toTable key with
  | false => rfl
  | true => cases (c.db.get_blob key (c.readable key)).bind (rowOf s.toTable) <;> rfl

theorem order_by_perm (qsort : Qsort Row) (rows : List Row) :
    (s.order_by qsort q rows).Perm rows := by
  unfold Schema.order_by
  split
  · exact List.Perm.refl _
  split
  · split
    · exact List.Perm.refl _
    · exact qsort.perm _ _
  · exact List.Perm.refl _

/-- The order in which the code puts two rows. -/
def Schema.upward (a b : Row) : Bool :=
  match q.order_by.bind s.find_col with
  | none => true
  | some col => row_cmp asDoubles col q.descending a b ≠ .gt

/-- Rows that can be sorted come out in the order that is asked for. -/
theorem order_by_asked {rows : List Row} (sortable : Sortable s q rows) (qsort : Qsort Row) :
    (s.order_by qsort q rows).Pairwise (s.asked q · · ≠ .gt) := by
  unfold Sortable at sortable
  unfold Schema.order_by
  cases named : q.order_by with
  | none =>
    rw [named] at sortable
    exact sortable
  | some name =>
    rw [named] at sortable
    dsimp only at sortable ⊢
    split
    next many =>
      cases column : s.find_col name with
      | none => exact List.pairwise_of_forall fun a b => by simp [Schema.asked, named, column]
      | some col =>
        have able := sortable col column
        have sorted := qsort.sorted _ rows (able.consistent q.descending)
        refine sorted.imp_of_mem fun ha hb upward => ?_
        have same := able.row_cmp_eq q.descending _ ((qsort.perm _ _).mem_iff.1 ha) _
          ((qsort.perm _ _).mem_iff.1 hb)
        simpa [Schema.asked, named, column, ← same] using upward
    next few =>
      have short : rows.length ≤ 1 := Nat.le_of_not_lt few
      match rows, short with
      | [], _ => exact List.Pairwise.nil
      | [row], _ => exact List.pairwise_singleton _ _

theorem Column.order_swap (col : Column Row) (a b : Row) :
    col.order asIntegers b a = (col.order asIntegers a b).swap := by
  cases col with
  | mk name field =>
    cases field with
    | i64 get => exact (cmp_swap _ _).symm
    | text size get =>
      have forth := strncmp_compares (get a) (get b) size
      have back := strncmp_compares (get b) (get a) size
      exact back.cmp_eq.symm.trans forth.swap.cmp_eq
    | f64 get =>
      simp only [Column.order]
      cases get a with
      | none => cases get b <;> rfl
      | some x =>
        cases get b with
        | none => rfl
        | some y => exact (cmp_swap x y).symm

theorem row_cmp_swap (col : Column Row) (descending : Bool) (a b : Row) :
    row_cmp asIntegers col descending b a = (row_cmp asIntegers col descending a b).swap := by
  cases descending with
  | false => exact col.order_swap a b
  | true => exact congrArg Ordering.swap (col.order_swap a b)

/-- Of two rows that differ in the column, one is asked for after the other. -/
theorem exists_later {col : Column Row} (descending : Bool) {a b : Row}
    (differ : col.order asIntegers a b ≠ .eq) :
    row_cmp asIntegers col descending a b = .gt ∨ row_cmp asIntegers col descending b a = .gt := by
  rw [row_cmp_swap col descending a b]
  unfold row_cmp
  cases order : col.order asIntegers a b with
  | eq => exact absurd order differ
  | lt | gt => cases descending <;> simp

/-- If rows come out as asked for whatever a sort does with ties, the column can sort them. -/
theorem Column.sortable_of {col : Column Row} {rows : List Row} {descending : Bool}
    (all : ∀ result : List Row, result.Perm rows →
      (Consistent (row_cmp asDoubles col descending) rows →
        result.Pairwise (row_cmp asDoubles col descending · · ≠ .gt)) →
      result.Pairwise (row_cmp asIntegers col descending · · ≠ .gt)) : col.Sortable rows := by
  have tied : ∀ x ∈ rows, ∀ y ∈ rows, row_cmp asIntegers col descending x y = .gt →
      ¬ (row_cmp asDoubles col descending x y ≠ .gt ∨
        ¬ Consistent (row_cmp asDoubles col descending) rows) := by
    intro x hx y hy later loose
    have self : row_cmp asIntegers col descending x x ≠ .gt := by
      intro gt
      have swapped := row_cmp_swap col descending x x
      rw [gt] at swapped
      cases swapped
    obtain ⟨result, perm, sorted, misplaced⟩ := exists_misplaced hx hy self later loose
    exact misplaced (all result perm sorted)
  cases col with
  | mk name field =>
    cases field with
    | text size get => exact trivial
    | i64 get =>
      intro a ha b hb same
      by_contra different
      have tie : ∀ x y, toDouble (get x) = toDouble (get y) →
          row_cmp asDoubles ⟨name, .i64 get⟩ descending x y = .eq := by
        intro x y same
        have order : asDoubles (get x) (get y) = .eq := by
          rw [asDoubles_eq_cmp, toDouble_inj.1 same, cmp_self_eq_eq]
        cases descending <;> simp [row_cmp, Column.order, order]
      have differ : Column.order asIntegers ⟨name, .i64 get⟩ a b ≠ .eq := fun eq =>
        different (Int64.toInt_inj.1 ((cmp_eq_eq_iff _ _).1 eq))
      rcases exists_later descending differ with later | later
      · exact tied a ha b hb later (.inl (by rw [tie a b same]; decide))
      · exact tied b hb a ha later (.inl (by rw [tie b a same.symm]; decide))
    | f64 get =>
      rintro ⟨row, member, nan⟩ a ha b hb x y left right
      by_contra different
      have differ : Column.order asIntegers ⟨name, .f64 get⟩ a b ≠ .eq := by
        intro eq
        simp only [Column.order, left, right] at eq
        exact different ((cmp_eq_eq_iff _ _).1 eq)
      -- a row that is not a number ties with both
      have tie : ∀ x, row_cmp asDoubles ⟨name, .f64 get⟩ descending x row = .eq ∧
          row_cmp asDoubles ⟨name, .f64 get⟩ descending row x = .eq := by
        intro x
        cases descending <;> cases held : get x <;>
          simp [row_cmp, Column.order, Double.order, nan, held]
      have loose : ∀ u ∈ rows, ∀ v ∈ rows,
          row_cmp asIntegers ⟨name, .f64 get⟩ descending u v = .gt →
            ¬ Consistent (row_cmp asDoubles ⟨name, .f64 get⟩ descending) rows := by
        intro u hu v hv later consistent
        exact consistent.trans u hu row member v hv (by rw [(tie u).1]; decide)
          (by rw [(tie v).2]; decide) later
      rcases exists_later descending differ with later | later
      · exact tied a ha b hb later (.inr (loose a ha b hb later))
      · exact tied b hb a ha later (.inr (loose b hb a ha later))

/-- The rows are those that were asked for, for every offset and limit and whatever a sort does with
ties, exactly when each match is taken and has room, and the matches can be sorted; and integers are
compared exactly when different ones do not become one double. -/
theorem select_iff :
    ((∀ (qsort : Qsort Row) (offset limit : Nat),
        Answer s { q with offset, limit } c.db
          (s.hdb_select qsort { q with offset, limit } max_rows c.order c.readable c.db)) ↔
      Fits s q.conds max_rows (c.rows s) ∧
        Sortable s q ((c.rows s).filter (row_matches asIntegers s q.conds))) ∧
    ∀ a b : Int64, asDoubles a b = asIntegers a b ↔ (toDouble a = toDouble b → a = b) := by
  refine ⟨?_, asDoubles_eq_iff⟩
  have selects : ∀ (qsort : Qsort Row) (offset limit : Nat),
      s.hdb_select qsort { q with offset, limit } max_rows c.order c.readable c.db =
        window offset limit (s.order_by qsort q
          (((c.rows s).filter (row_matches asDoubles s q.conds)).take max_rows)) := by
    intro qsort offset limit
    rw [← scanRows_eq_filter]
    rfl
  constructor
  · intro answers
    -- the window with all rows shows what was gathered, and in which order
    have whole : ∀ qsort : Qsort Row, ∃ sorted : List Row,
        sorted.Perm ((c.rows s).filter (row_matches asIntegers s q.conds)) ∧
        sorted.Pairwise (s.asked q · · ≠ .gt) ∧
        s.order_by qsort q (((c.rows s).filter (row_matches asDoubles s q.conds)).take max_rows) =
          sorted := by
      intro qsort
      obtain ⟨rows, sorted, listed, perm, ordered, same⟩ := answers qsort 0 0
      rw [selects] at same
      exact ⟨sorted, perm.trans ((listed.perm (listed_rows s c)).filter _), ordered, same⟩
    have gathered : ((c.rows s).filter (row_matches asDoubles s q.conds)).take max_rows =
        (c.rows s).filter (row_matches asIntegers s q.conds) := by
      obtain ⟨sorted, perm, -, same⟩ := whole (Qsort.stable Row)
      refine eq_filter_of_perm _ ((List.take_sublist _ _).trans List.filter_sublist) ?_
      exact ((order_by_perm s q _ _).symm.trans (.of_eq same)).trans perm
    refine ⟨(take_filter_eq_iff _ _ _ _).1 gathered, ?_⟩
    rw [gathered] at whole
    unfold Sortable
    cases named : q.order_by with
    | none =>
      obtain ⟨sorted, -, ordered, same⟩ := whole (Qsort.stable Row)
      rw [← same, Schema.order_by, named] at ordered
      exact ordered
    | some name =>
      intro col column
      refine @Column.sortable_of _ _ _ q.descending fun result perm sorted => ?_
      obtain ⟨out, -, ordered, same⟩ := whole (Qsort.such _ _ result perm sorted)
      rw [← same, Schema.order_by, named] at ordered
      dsimp only at ordered
      rw [column] at ordered
      dsimp only at ordered
      rw [Qsort.such_sort] at ordered
      split at ordered
      next many => simpa [Schema.asked, named, column] using ordered
      next few =>
        have short := perm.length_eq
        match result, perm, short with
        | [], _, _ => exact List.Pairwise.nil
        | [row], _, _ => exact List.pairwise_singleton _ _
        | _ :: _ :: _, _, short => simp only [List.length_cons] at short; omega
  · rintro ⟨fits, sortable⟩ qsort offset limit
    have gathered := (take_filter_eq_iff _ _ _ _).2 fits
    rw [selects, gathered]
    exact ⟨c.rows s, _, listed_rows s c, order_by_perm s q qsort _,
      order_by_asked s q sortable qsort, rfl⟩

end Content

/-! ### Two users -/

structure User where
  id : Int64
  name : Text
  age : Int64
  score : Double
deriving DecidableEq

def users : Schema User where
  name := ['u', 's', 'e', 'r', 's']
  stamp_id := fun id row => { row with id := Int64.ofNat id.toNat }
  columns :=
    [⟨['i', 'd'], .i64 User.id⟩, ⟨['n', 'a', 'm', 'e'], .text 32 User.name⟩,
      ⟨['a', 'g', 'e'], .i64 User.age⟩, ⟨['s', 'c', 'o', 'r', 'e'], .f64 User.score⟩]

/-- The older one: no double is its age. -/
def older : User := ⟨1, [], 2 ^ 53 + 1, none⟩

def younger : User := ⟨2, [], 2 ^ 53, none⟩

def twoUsers : Content User where
  db :=
    { kvs := fun key =>
        if key = row_key users.toTable 1 then some (.row older)
        else if key = row_key users.toTable 2 then some (.row younger)
        else none
      preDeleted := [] }
  order := [row_key users.toTable 1, row_key users.toTable 2]
  scanned :=
    { nodup := by decide
      found := by
        intro key
        by_cases first : key = row_key users.toTable 1
        · simp [first]
        by_cases second : key = row_key users.toTable 2
        · simp only [second, List.mem_cons, or_true, true_or, if_true, true_iff]
          split <;> exact nofun
        · simp [first, second]
      read := fun _ => rfl }

def youngest : Query := { order_by := some ['a', 'g', 'e'], limit := 1 }

def aged : Query := { conds := [{ column := ['a', 'g', 'e'], op := .eq, i := 2 ^ 53 }] }

/-- The youngest user is not the first that the pass meets, and not every user whose age becomes the
same double has this age. -/
theorem first_met :
    ¬ Answer users youngest twoUsers.db
        (users.hdb_select (Qsort.stable User) youngest 1 twoUsers.order twoUsers.readable
          twoUsers.db) ∧
      ¬ Answer users aged twoUsers.db
        (users.hdb_select (Qsort.stable User) aged 32 twoUsers.order twoUsers.readable
          twoUsers.db) := by
  have all : ∀ rows, Listed users.toTable twoUsers.db rows → rows.Perm [older, younger] := by
    intro rows listed
    have whole : twoUsers.rows users = [older, younger] := by decide
    exact whole ▸ listed.perm (listed_rows users twoUsers)
  constructor
  · have first : users.hdb_select (Qsort.stable User) youngest 1 twoUsers.order twoUsers.readable
        twoUsers.db = [older] := by decide
    rw [first]
    rintro ⟨rows, sorted, listed, perm, ordered, same⟩
    have member : younger ∈ sorted :=
      perm.mem_iff.2 (List.mem_filter.2 ⟨(all rows listed).mem_iff.2 (by decide), by decide⟩)
    cases sorted with
    | nil => cases member
    | cons row rest =>
      obtain ⟨rfl, -⟩ := List.cons.inj same
      rcases List.mem_cons.1 member with equal | later
      · exact absurd equal (by decide)
      · exact List.rel_of_pairwise_cons ordered later (by decide)
  · have both : users.hdb_select (Qsort.stable User) aged 32 twoUsers.order twoUsers.readable
        twoUsers.db = [older, younger] := by decide
    rw [both]
    rintro ⟨rows, sorted, -, perm, -, same⟩
    have member : older ∈ window aged.offset aged.limit sorted := same ▸ List.mem_cons_self
    have matched := (List.mem_filter.1 (perm.mem_iff.1 member)).2
    exact absurd matched (by decide +kernel)

end HelixKit.Esp32.Db
