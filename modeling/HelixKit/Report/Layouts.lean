/-
Purpose: The checks of a report layout, and whether expanding a layout that passes them ends and
  draws every element.
Trusted boundary: the library's structural check, the component schemas and the check of the
  bindings are parameters
Main exports: valid_layouts_drawn_iff
-/
import Mathlib.Data.List.Nodup
import Mathlib.Data.List.NodupEquivFin
import Mathlib.Logic.Relation

namespace HelixKit.Report

open Relation

/-! ### Layouts -/

structure ReportSpecIssue where
  elementKey : Option String := none
  message : String
deriving DecidableEq

section Layouts

-- What the props of an element are.
variable {Props : Type}

/-- An element; entries of its children that are no strings have no key. -/
structure UIElement (Props : Type) where
  type : String
  props : Props
  children : Option (List (Option String)) := none

/-- A layout, with the keys at its top that are neither `root` nor `elements`. -/
structure Spec (Props : Type) where
  root : String
  elements : List (String × UIElement Props)
  keyed : (elements.map Prod.fst).Nodup
  stray : List String := []

def Spec.keys (spec : Spec Props) : List String := spec.elements.map Prod.fst

def childrenOf (element : UIElement Props) : List String :=
  (element.children.getD []).filterMap id

/-- The children of the element with a key, if there is one. -/
def Spec.below (spec : Spec Props) (key : String) : List String :=
  match spec.elements.lookup key with
  | some element => childrenOf element
  | none => []

/-! ### Checks -/

def strayTopLevelIssues (spec : Spec Props) : List ReportSpecIssue :=
  spec.stray.map fun key => {
    message := s!"The layout has an unexpected top-level key \"{key}\". " ++
      "Patch paths are rooted at the layout, so they start with \"/elements\" or \"/root\"." }

/-- The children that were seen before, each once. -/
def repeated : List String → List String → List String → List String
  | _, _, [] => []
  | seen, reported, child :: rest =>
    if child ∈ seen ∧ child ∉ reported then
      child :: repeated (child :: seen) (child :: reported) rest
    else repeated (child :: seen) reported rest

def duplicateChildIssues (spec : Spec Props) : List ReportSpecIssue :=
  spec.elements.flatMap fun (key, element) =>
    (repeated [] [] (childrenOf element)).map fun child => {
      elementKey := some key
      message := s!"Child \"{child}\" is listed more than once, so it draws more than once. " ++
        "Adding to an array inserts; it does not move what is already there." }

/-- The elements that were not reached. -/
def Spec.unreached (spec : Spec Props) (reached : List String) : List String :=
  spec.keys.filter (· ∉ reached)

theorem unreached_cons_le (spec : Spec Props) (reached : List String) (key : String) :
    (spec.unreached (key :: reached)).length ≤ (spec.unreached reached).length := by
  refine (List.monotone_filter_right spec.keys fun other apart => ?_).length_le
  simp only [List.mem_cons, not_or, decide_eq_true_eq] at apart ⊢
  exact apart.2

variable {spec : Spec Props}

theorem unreached_cons_lt {reached : List String} {key : String}
    (member : key ∈ spec.keys) (fresh : key ∉ reached) :
    (spec.unreached (key :: reached)).length < (spec.unreached reached).length := by
  have sublist : (spec.unreached (key :: reached)).Sublist (spec.unreached reached) := by
    refine List.monotone_filter_right spec.keys fun other apart => ?_
    simp only [List.mem_cons, not_or, decide_eq_true_eq] at apart ⊢
    exact apart.2
  refine lt_of_le_of_ne sublist.length_le fun same => ?_
  have inside : key ∈ spec.unreached reached := List.mem_filter.mpr ⟨member, by simpa using fresh⟩
  rw [← sublist.eq_of_length same] at inside
  simpa using (List.mem_filter.mp inside).2

theorem below_of_notMem {key : String} (absent : key ∉ spec.keys) :
    spec.below key = [] := by
  unfold Spec.below
  split
  next element found =>
    obtain ⟨before, after, shape, _⟩ := List.lookup_eq_some_iff.mp found
    exact absurd (by simp [Spec.keys, shape]) absent
  · rfl

/-- The keys that a queue of keys leads to. -/
def reachedFrom (spec : Spec Props) (reached : List String) : List String → List String
  | [] => reached
  | key :: queue =>
    if old : key ∈ reached then reachedFrom spec reached queue
    else if member : key ∈ spec.keys then
      have _fewer := unreached_cons_lt member old
      reachedFrom spec (key :: reached) (queue ++ spec.below key)
    else
      have _same := unreached_cons_le spec reached key
      reachedFrom spec (key :: reached) queue
termination_by queue => ((spec.unreached reached).length, queue.length)
decreasing_by
  · exact Prod.Lex.right _ (by simp)
  · exact Prod.Lex.left _ _ _fewer
  · obtain less | equal := _same.lt_or_eq
    · exact Prod.Lex.left _ _ less
    · rw [equal]
      exact Prod.Lex.right _ (by simp)

def unreachableElementIssues (spec : Spec Props) : List ReportSpecIssue :=
  (spec.unreached (reachedFrom spec [] [spec.root])).map fun key => {
    elementKey := some key
    message := "Nothing reaches this element from the root, so it is never drawn." }

/-- The checks that are not of the layout's own graph: of the library, of an element against the
schema of its component, and of the bindings. -/
structure Checks (Props : Type) where
  validateSpec : Spec Props → List ReportSpecIssue
  element : String → UIElement Props → List ReportSpecIssue
  bindings : Spec Props → List ReportSpecIssue

def validateReportSpec (checks : Checks Props) (spec : Spec Props) : List ReportSpecIssue :=
  checks.validateSpec spec ++
    (spec.elements.flatMap fun (key, element) => checks.element key element) ++
    strayTopLevelIssues spec ++ duplicateChildIssues spec ++ unreachableElementIssues spec ++
    checks.bindings spec

/-- The library reports a root or a child without an element, and nothing else. -/
def Checks.Structural (checks : Checks Props) : Prop :=
  ∀ spec, checks.validateSpec spec = [] ↔
    spec.root ∈ spec.keys ∧ ∀ key, ∀ child ∈ spec.below key, child ∈ spec.keys

/-! ### Expanding -/

/-- The elements that are drawn for a key, in order, down to some depth. -/
def expand (spec : Spec Props) : ℕ → String → Option (List String)
  | 0, _ => none
  | depth + 1, key => do
      let drawn ← (spec.below key).mapM (expand spec depth)
      return key :: drawn.flatten

/-- Expanding the layout from its root ends and draws every element. -/
def Drawn (spec : Spec Props) : Prop :=
  ∃ depth drawn, expand spec depth spec.root = some drawn ∧ ∀ key ∈ spec.keys, key ∈ drawn

def Spec.Child (spec : Spec Props) (key child : String) : Prop := child ∈ spec.below key

/-- No element is below itself. -/
def Acyclic (spec : Spec Props) : Prop := ∀ key, ¬ TransGen spec.Child key key

theorem mem_keys_of_child {key child : String} (edge : spec.Child key child) :
    key ∈ spec.keys := by
  by_contra absent
  rw [Spec.Child, below_of_notMem absent] at edge
  cases edge

theorem mem_keys_of_transGen {key child : String}
    (path : TransGen spec.Child key child) : key ∈ spec.keys := by
  obtain ⟨next, first, _⟩ := TransGen.head'_iff.mp path
  exact mem_keys_of_child first

/-! ### The walk from the root -/

/-- The walk reaches nothing but what lies below the keys it starts with. -/
theorem reachedFrom_sound {top : String} (reached queue : List String)
    (started : ∀ key ∈ reached, ReflTransGen spec.Child top key)
    (queued : ∀ key ∈ queue, ReflTransGen spec.Child top key) :
    ∀ key ∈ reachedFrom spec reached queue, ReflTransGen spec.Child top key := by
  fun_induction reachedFrom spec reached queue with
  | case1 reached => exact started
  | case2 reached key queue old ih =>
    exact ih started fun other member => queued other (List.mem_cons_of_mem _ member)
  | case3 reached key queue fresh member _fewer ih =>
    have here := queued key List.mem_cons_self
    refine ih (List.forall_mem_cons.mpr ⟨here, started⟩) fun other inside => ?_
    obtain later | below := List.mem_append.mp inside
    · exact queued other (List.mem_cons_of_mem _ later)
    · exact here.tail below
  | case4 reached key queue fresh absent _same ih =>
    have here := queued key List.mem_cons_self
    exact ih (List.forall_mem_cons.mpr ⟨here, started⟩) fun other member =>
      queued other (List.mem_cons_of_mem _ member)

/-- Every element of a layout without issues lies below its root. -/
theorem reachable_of_valid {checks : Checks Props} (valid : validateReportSpec checks spec = []) :
    ∀ key ∈ spec.keys, ReflTransGen spec.Child spec.root key := by
  intro key member
  simp only [validateReportSpec, List.append_eq_nil_iff] at valid
  have none_ : spec.unreached (reachedFrom spec [] [spec.root]) = [] :=
    List.map_eq_nil_iff.mp valid.1.2
  have walked : key ∈ reachedFrom spec [] [spec.root] := by
    have seen := List.filter_eq_nil_iff.mp none_ key member
    simpa using seen
  refine reachedFrom_sound [] [spec.root] (fun _ absent => nomatch absent) ?_ key walked
  intro other inside
  rw [List.mem_singleton.mp inside]

/-! ### Depth -/

theorem expand_succ {depth : ℕ} {key : String} {drawn : List String} :
    expand spec (depth + 1) key = some drawn ↔
      ∃ parts, (spec.below key).mapM (expand spec depth) = some parts ∧
        drawn = key :: parts.flatten := by
  rw [expand]
  refine Option.bind_eq_some_iff.trans (exists_congr fun parts => and_congr_right fun _ => ?_)
  rw [Option.pure_def, Option.some.injEq, eq_comm]

theorem mapM_isSome {α β : Type} {f : α → Option β} {list : List α} :
    (list.mapM f).isSome = true ↔ ∀ value ∈ list, (f value).isSome = true := by
  induction list with
  | nil => simp
  | cons first more ih =>
    rw [List.forall_mem_cons, ← ih, List.mapM_cons]
    cases f first <;> cases more.mapM f <;> simp

theorem mapM_part {α β : Type} {f : α → Option β} {list : List α} {parts : List β}
    (mapped : list.mapM f = some parts) {value : α} (member : value ∈ list) :
    ∃ part ∈ parts, f value = some part := by
  induction list generalizing parts with
  | nil => cases member
  | cons first more ih =>
    rw [List.mapM_cons] at mapped
    cases taken : f first with
    | none => simp [taken] at mapped
    | some part =>
      cases others : more.mapM f with
      | none => simp [taken, others] at mapped
      | some rest =>
        have same : parts = part :: rest := by simpa [taken, others, eq_comm] using mapped
        subst same
        obtain rfl | later := List.mem_cons.mp member
        · exact ⟨part, List.mem_cons_self, taken⟩
        · obtain ⟨other, inRest, equal⟩ := ih others later
          exact ⟨other, List.mem_cons_of_mem _ inRest, equal⟩

/-- What is drawn for a key has a place for everything below it. -/
theorem mem_drawn {key other : String}
    (path : ReflTransGen spec.Child key other) {depth : ℕ} {drawn : List String}
    (expanded : expand spec depth key = some drawn) : other ∈ drawn := by
  induction path using ReflTransGen.head_induction_on generalizing depth drawn with
  | refl =>
    cases depth with
    | zero => cases expanded
    | succ depth =>
      obtain ⟨parts, _, rfl⟩ := expand_succ.mp expanded
      exact List.mem_cons_self
  | head edge _ ih =>
    cases depth with
    | zero => cases expanded
    | succ depth =>
      obtain ⟨parts, mapped, rfl⟩ := expand_succ.mp expanded
      obtain ⟨part, inside, same⟩ := mapM_part mapped edge
      exact List.mem_cons_of_mem _ (List.mem_flatten_of_mem inside (ih same))

/-- Below a key that is expanded down to some depth, less depth is enough. -/
theorem expand_below {key other : String} (path : TransGen spec.Child key other) {depth : ℕ}
    (expanded : (expand spec depth key).isSome = true) :
    ∃ less < depth, (expand spec less other).isSome = true := by
  have step : ∀ {key child : String} {depth : ℕ}, spec.Child key child →
      (expand spec depth key).isSome = true →
        ∃ less < depth, (expand spec less child).isSome = true := by
    intro key child depth edge expanded
    cases depth with
    | zero => cases expanded
    | succ depth =>
      obtain ⟨drawn, same⟩ := Option.isSome_iff_exists.mp expanded
      obtain ⟨parts, mapped, _⟩ := expand_succ.mp same
      obtain ⟨part, _, taken⟩ := mapM_part mapped edge
      exact ⟨depth, Nat.lt_succ_self depth, Option.isSome_iff_exists.mpr ⟨part, taken⟩⟩
  induction path with
  | single edge => exact step edge expanded
  | tail _ edge ih =>
    obtain ⟨less, below, some_⟩ := ih
    obtain ⟨least, under, found⟩ := step edge some_
    exact ⟨least, under.trans below, found⟩

theorem not_expand_of_cycle {key : String}
    (cycle : TransGen spec.Child key key) (depth : ℕ) : expand spec depth key = none := by
  induction depth using Nat.strong_induction_on with
  | _ depth ih =>
    by_contra some_
    obtain ⟨less, below, found⟩ := expand_below cycle (Option.isSome_iff_ne_none.mpr some_)
    rw [ih less below] at found
    cases found

/-- A path of different elements, each above the key, leaves as much depth as there are other
elements. -/
theorem expand_of_path (acyclic : Acyclic spec) (depth : ℕ)
    (path : List String) {key : String} (inside : ∀ above ∈ path, above ∈ spec.keys)
    (different : path.Nodup) (above : ∀ other ∈ path, TransGen spec.Child other key)
    (deep : spec.keys.length < depth + path.length) : (expand spec depth key).isSome = true := by
  induction depth generalizing path key with
  | zero =>
    have few := (List.subperm_of_subset different inside).length_le
    omega
  | succ depth ih =>
    have parts : ((spec.below key).mapM (expand spec depth)).isSome = true := by
      refine mapM_isSome.mpr fun child edge => ?_
      have fresh : key ∉ path := fun member => acyclic key (above key member)
      refine ih (key :: path) ?_ (List.nodup_cons.mpr ⟨fresh, different⟩) ?_ ?_
      · exact List.forall_mem_cons.mpr ⟨mem_keys_of_child edge, inside⟩
      · exact List.forall_mem_cons.mpr
          ⟨.single edge, fun other member => (above other member).tail edge⟩
      · rw [List.length_cons]
        omega
    obtain ⟨found, same⟩ := Option.isSome_iff_exists.mp parts
    exact Option.isSome_iff_exists.mpr ⟨_, expand_succ.mpr ⟨found, same, rfl⟩⟩

/-- A layout without issues is expanded to an end, and all of it is drawn, exactly when no element
is below itself. -/
theorem valid_layouts_drawn_iff (checks : Checks Props) (spec : Spec Props)
    (valid : validateReportSpec checks spec = []) : Drawn spec ↔ Acyclic spec := by
  have reachable := reachable_of_valid valid
  constructor
  · rintro ⟨depth, drawn, expanded, _⟩ key cycle
    have ends : ∃ depth, (expand spec depth key).isSome = true := by
      obtain rfl | path :=
        reflTransGen_iff_eq_or_transGen.mp (reachable key (mem_keys_of_transGen cycle))
      · exact ⟨depth, Option.isSome_iff_exists.mpr ⟨drawn, expanded⟩⟩
      · obtain ⟨less, _, found⟩ :=
          expand_below path (Option.isSome_iff_exists.mpr ⟨drawn, expanded⟩)
        exact ⟨less, found⟩
    obtain ⟨depth, found⟩ := ends
    rw [not_expand_of_cycle cycle depth] at found
    cases found
  · intro acyclic
    have ends : (expand spec (spec.keys.length + 1) spec.root).isSome = true :=
      expand_of_path acyclic _ [] (fun _ absent => nomatch absent) List.nodup_nil
        (fun _ absent => nomatch absent) (by simp)
    obtain ⟨drawn, expanded⟩ := Option.isSome_iff_exists.mp ends
    exact ⟨_, drawn, expanded, fun key member => mem_drawn (reachable key member) expanded⟩

end Layouts

/-! ### Layouts of two elements -/

/-- The library's check, where every component takes all props. -/
def structural : Checks Unit where
  validateSpec spec :=
    if spec.root ∈ spec.keys ∧ ∀ key ∈ spec.keys, ∀ child ∈ spec.below key, child ∈ spec.keys then
      []
    else [{ message := "missing" }]
  element _ _ := []
  bindings _ := []

theorem structural_reports : structural.Structural := by
  intro spec
  have known : (∀ key ∈ spec.keys, ∀ child ∈ spec.below key, child ∈ spec.keys) ↔
      ∀ key, ∀ child ∈ spec.below key, child ∈ spec.keys :=
    ⟨fun all key child edge => all key (mem_keys_of_child edge) child edge,
      fun all key _ => all key⟩
  simp [structural, known]

/-- A page with a section, which has these children. -/
def pageLayout (children : List (Option String)) : Spec Unit where
  root := "page"
  elements := [("page", { type := "Page", props := (), children := some [some "section"] }),
    ("section", { type := "Section", props := (), children := some children })]
  keyed := by simp

theorem below_page (children : List (Option String)) :
    (pageLayout children).below "page" = ["section"] := rfl

theorem below_section (children : List (Option String)) :
    (pageLayout children).below "section" = children.filterMap id := rfl

theorem keys_pageLayout (children : List (Option String)) :
    (pageLayout children).keys = ["page", "section"] := rfl

theorem pageLayout_valid {children : List (Option String)}
    (few : children = [] ∨ children = [some "page"]) :
    validateReportSpec structural (pageLayout children) = [] := by
  have walked : reachedFrom (pageLayout children) [] ["page"] = ["section", "page"] := by
    obtain rfl | rfl := few
    · simp [reachedFrom, below_page, below_section, keys_pageLayout]
    · simp [reachedFrom, below_page, below_section, keys_pageLayout]
  have root : (pageLayout children).root = "page" := rfl
  have reached : unreachableElementIssues (pageLayout children) = [] := by
    rw [unreachableElementIssues, root, walked]
    rfl
  have checked : structural.validateSpec (pageLayout children) = [] := by
    obtain rfl | rfl := few
    · simp [structural, root, below_page, below_section, keys_pageLayout]
    · simp [structural, root, below_page, below_section, keys_pageLayout]
  have single : duplicateChildIssues (pageLayout children) = [] := by
    obtain rfl | rfl := few
    · rfl
    · rfl
  rw [validateReportSpec, checked, single, reached]
  rfl

theorem valid_layouts_drawn_page : Drawn (pageLayout []) := by
  refine (valid_layouts_drawn_iff structural _ (pageLayout_valid (.inl rfl))).mpr ?_
  have leaf : ∀ key, ¬ (pageLayout []).Child "section" key := by
    intro key edge
    rw [Spec.Child, below_section] at edge
    cases edge
  have edges : ∀ {key child}, (pageLayout []).Child key child →
      key = "page" ∧ child = "section" := by
    intro key child edge
    have member := mem_keys_of_child edge
    rw [keys_pageLayout, List.mem_pair] at member
    obtain rfl | rfl := member
    · rw [Spec.Child, below_page, List.mem_singleton] at edge
      exact ⟨rfl, edge⟩
    · exact absurd edge (leaf child)
  intro key cycle
  obtain ⟨_, first, _⟩ := TransGen.head'_iff.mp cycle
  obtain ⟨_, _, last⟩ := TransGen.tail'_iff.mp cycle
  have impossible : "page" = "section" := (edges first).1.symm.trans (edges last).2
  exact absurd impossible (by decide)

/-- The section of the page has the page below it, and no check notices. -/
theorem back_edge_unnoticed : structural.Structural ∧
    validateReportSpec structural (pageLayout [some "page"]) = [] ∧
      ¬ Drawn (pageLayout [some "page"]) := by
  refine ⟨structural_reports, pageLayout_valid (.inr rfl), ?_⟩
  rintro ⟨depth, drawn, expanded, _⟩
  have down : (pageLayout [some "page"]).Child "page" "section" := List.mem_singleton_self _
  have up : (pageLayout [some "page"]).Child "section" "page" := List.mem_singleton_self _
  have never := not_expand_of_cycle (.tail (.single down) up) depth
  cases never.symm.trans expanded

end HelixKit.Report
