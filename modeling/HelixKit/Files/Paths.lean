/-
Purpose: The allow-list of the file service: the configured roots, and which requested paths are
  resolved to a path beneath them.
Trusted boundary: every directory can be searched
Main exports: resolve_faithful_iff
-/
import HelixKit.Lib.LinkTree

namespace HelixKit.Files

open PosixPath LinkTree

/-! ## Paths of the standard library -/

def isAbs (path : Path) : Bool := path.head? = some '/'

/-- `filepath.Clean` of an absolute path. -/
def clean (path : Path) : Path := render (locate path)

/-- `filepath.Dir` of an absolute path. -/
def dir (path : Path) : Path := render (locate path).dropLast

/-- `filepath.Base` of an absolute path. -/
def base (path : Path) : Path := (locate path).getLast?.getD ['/']

/-- `filepath.Join` of an absolute path and a name. -/
def join (parent name : Path) : Path := clean (parent ++ '/' :: name)

/-- `filepath.EvalSymlinks`, which gives up after 255 links. -/
def evalSymlinks (tree : Tree) (path : Path) : Option Path :=
  (LinkTree.evalSymlinks tree 255 [] (path.splitOn '/')).map render

/-! ## Resolution -/

def contains (root path : Path) : Bool := path = root || (root ++ ['/']).isPrefixOf path

/-- `resolve`; none is `ErrOutsideRoots`. -/
def resolve (tree : Tree) (roots : List Path) (requested : Path) : Option Path :=
  match roots with
  | [] => none
  | first :: _ =>
    if requested = [] then some first
    else if ¬ isAbs requested then none
    else
      let cleaned := clean requested
      let real :=
        match evalSymlinks tree cleaned with
        | some real => some real
        | none =>
          -- an upload target that is not there yet
          (evalSymlinks tree (dir cleaned)).map fun parent => join parent (base cleaned)
      real.filter fun real => roots.any fun root => contains root real

inductive RootError where
  | notAbsolute (root : Path)
  | unresolved (root : Path)
deriving Repr, DecidableEq

def resolveRoot (tree : Tree) (root : Path) : Except RootError Path :=
  if ¬ isAbs root then .error (.notAbsolute root)
  else
    match evalSymlinks tree (clean root) with
    | none => .error (.unresolved root)
    | some real => .ok real

/-- `resolveRoots` -/
def resolveRoots (tree : Tree) (configured : List Path) : Except RootError (List Path) :=
  configured.mapM (resolveRoot tree)

/-! ## The boundary -/

/-- The real location of a request; the empty one is for the first of the configured roots, and a
relative one has none. -/
inductive Names (tree : Tree) (configured : List Path) : Path → Place → Prop
  | first {root : Path} {rest : List Path} {place : Place} (head : configured = root :: rest)
      (leads : Leads tree [] (root.splitOn '/') place) : Names tree configured [] place
  | absolute {requested : Path} {place : Place} (abs : isAbs requested = true)
      (leads : Leads tree [] (requested.splitOn '/') place) : Names tree configured requested place

/-- The place is the real location of a configured root, or beneath it. -/
def Under (tree : Tree) (configured : List Path) (place : Place) : Prop :=
  ∃ root ∈ configured, ∃ top, Leads tree [] (root.splitOn '/') top ∧ top <+: place

/-- Exactly the requests whose real location is beneath a root are accepted, and with it. -/
def Faithful (tree : Tree) (configured roots : List Path) (requested : Path) : Prop :=
  ∀ real, resolve tree roots requested = some real ↔
    ∃ place, Names tree configured requested place ∧ Under tree configured place ∧
      real = render place

/-- The normal form of a path is found, or all of it but the last name, which is no link. -/
inductive Reaches (tree : Tree) (path : Path) : Place → Prop
  | found {place : Place} (found : LinkTree.evalSymlinks tree 255 [] (locate path) = some place) :
      Reaches tree path place
  | fresh {before parent : Place} {name : Path} (shape : locate path = before ++ [name])
      (missing : LinkTree.evalSymlinks tree 255 [] (locate path) = none)
      (directory : LinkTree.evalSymlinks tree 255 [] before = some parent)
      (free : ∀ target, tree.get (parent ++ [name]) ≠ some (.link target)) :
      Reaches tree path (parent ++ [name])

/-- The last name of the normal form of a path is a link that cannot be resolved: it dangles, goes
round, or takes too many links. -/
inductive Dangles (tree : Tree) (path : Path) : Place → Prop
  | link {before parent : Place} {name target : Path} (shape : locate path = before ++ [name])
      (missing : LinkTree.evalSymlinks tree 255 [] (locate path) = none)
      (directory : LinkTree.evalSymlinks tree 255 [] before = some parent)
      (link : tree.get (parent ++ [name]) = some (.link target)) :
      Dangles tree path (parent ++ [name])

/-- A root is the place, or is not `/` and has it beneath it. -/
def Admits (roots : List Path) (place : Place) : Prop :=
  ∃ root ∈ roots, locate root = place ∨ locate root ≠ [] ∧ locate root <+: place

/-- The requests that are answered by their real location. -/
inductive Settled (tree : Tree) (configured roots : List Path) (requested : Path) : Prop
  | unrooted (none : configured = [])
  | relative (some_ : requested ≠ []) (relative : isAbs requested = false)
  | empty {root : Path} {rest : List Path} {place : Place} (empty : requested = [])
      (head : configured = root :: rest) (leads : Leads tree [] (root.splitOn '/') place)
      (cleaned : Leads tree [] (locate root) place)
  | accepted {place : Place} (abs : isAbs requested = true)
      (leads : Leads tree [] (requested.splitOn '/') place) (reaches : Reaches tree requested place)
      (under : Under tree configured place) (admitted : Admits roots place)
  | refused (abs : isAbs requested = true)
      (outside : ∀ place, Leads tree [] (requested.splitOn '/') place →
        ¬ Under tree configured place)
      (unadmitted : ∀ place, Reaches tree requested place ∨ Dangles tree requested place →
        ¬ Admits roots place)

/-! ## The text of paths -/

section

variable {tree : Tree}

theorem evalSymlinks_render {names : Place} (plain : ∀ name ∈ names, Plain name) :
    evalSymlinks tree (render names) =
      (LinkTree.evalSymlinks tree 255 [] names).map render := by
  by_cases empty : names = []
  · subst empty
    rfl
  · rw [evalSymlinks, splitOn_render plain empty]
    rfl

variable {place : Place}

theorem plain_of_eval {names : Place} (plain : ∀ name ∈ names, Plain name)
    (found : LinkTree.evalSymlinks tree 255 [] names = some place) : ∀ name ∈ place, Plain name :=
  (leads_of_evalSymlinks found).plain (fun name member => (plain name member).noSlash) (by simp)

theorem join_render {parent : Place} (plain : ∀ name ∈ parent, Plain name) {name : Path}
    (named : Plain name) : join (render parent) name = render (parent ++ [name]) := by
  rw [join, clean, locate_append, locate_render plain, List.splitOn_eq_singleton named.noSlash]
  exact congrArg render (named.enter parent)

theorem render_append {names more : Place} (some_ : names ≠ []) (someToo : more ≠ []) :
    render (names ++ more) = render names ++ '/' :: ['/'].intercalate more := by
  have joined : ['/'].intercalate (names ++ more) =
      ['/'].intercalate names ++ '/' :: ['/'].intercalate more := by
    induction names with
    | nil => exact absurd rfl some_
    | cons name rest ih =>
      cases rest with
      | nil =>
        rw [List.singleton_append, List.intercalate_cons_of_ne_nil someToo]
        simp
      | cons second rest =>
        rw [List.cons_append, List.intercalate_cons_of_ne_nil (by simp),
          List.intercalate_cons_of_ne_nil (by simp), ih (by simp)]
        simp
  rw [render, joined]
  rfl

/-- The root directory is no prefix of another path as `contains` has it. -/
theorem not_prefix_of_root (plain : ∀ name ∈ place, Plain name) :
    ¬ (render [] ++ ['/'] <+: render place) := by
  intro longer
  cases place with
  | nil =>
    have short := longer.length_le
    simp [render] at short
  | cons name rest =>
    have named := plain name List.mem_cons_self
    obtain ⟨c, tail, shape⟩ := List.exists_cons_of_ne_nil named.nonempty
    have starts : ∃ more, render (name :: rest) = '/' :: c :: more := by
      cases rest with
      | nil => exact ⟨tail, by simp [render, shape]⟩
      | cons second more => exact ⟨_, by rw [render, List.intercalate_cons_cons, shape]; rfl⟩
    obtain ⟨more, whole⟩ := starts
    have slash : c = '/' := by
      rw [whole] at longer
      simpa [render, eq_comm] using longer
    exact named.noSlash (shape ▸ slash ▸ List.mem_cons_self)

/-- A root has itself beneath it and, unless it is `/`, whatever goes on from it. -/
theorem contains_render_iff {root : Place} (plain : ∀ name ∈ root, Plain name)
    (plainToo : ∀ name ∈ place, Plain name) :
    contains (render root) (render place) = true ↔ root = place ∨ root ≠ [] ∧ root <+: place := by
  rw [contains, Bool.or_eq_true, decide_eq_true_eq, List.isPrefixOf_iff_prefix]
  constructor
  · rintro (same | longer)
    · exact .inl (render_inj plain plainToo same.symm)
    · refine .inr ⟨?_, prefix_of_render plain plainToo longer⟩
      rintro rfl
      exact not_prefix_of_root plainToo longer
  · rintro (rfl | ⟨some_, more, rfl⟩)
    · exact .inl rfl
    · by_cases none_ : more = []
      · subst none_
        exact .inl (by rw [List.append_nil])
      · refine .inr ⟨['/'].intercalate more, ?_⟩
        rw [render_append some_ none_, List.append_assoc, List.singleton_append]

/-! ## The place that is gone to -/

/-- Where the resolution of a path goes, if the directory is there. -/
def goes (tree : Tree) (names : Place) : Option Place :=
  match LinkTree.evalSymlinks tree 255 [] names with
  | some place => some place
  | none => (LinkTree.evalSymlinks tree 255 [] names.dropLast).map fun parent =>
    parent ++ [names.getLast?.getD ['/']]

theorem plain_goes {names : Place} (plain : ∀ name ∈ names, Plain name)
    (gone : goes tree names = some place) : ∀ name ∈ place, Plain name := by
  unfold goes at gone
  cases found : LinkTree.evalSymlinks tree 255 [] names with
  | some real =>
    rw [found] at gone
    cases gone
    exact plain_of_eval plain found
  | none =>
    rw [found] at gone
    obtain ⟨parent, directory, rfl⟩ := Option.map_eq_some_iff.mp gone
    have above := plain_of_eval
      (fun name member => plain name (List.dropLast_subset names member)) directory
    intro name member
    rcases List.mem_append.mp member with inside | last
    · exact above name inside
    · rw [List.mem_singleton.mp last]
      rcases List.eq_nil_or_concat' names with rfl | ⟨before, last_, rfl⟩
      · cases found
      · simpa using plain last_ (by simp)

theorem goes_iff {path : Path} :
    goes tree (locate path) = some place ↔ Reaches tree path place ∨ Dangles tree path place := by
  constructor
  · intro gone
    unfold goes at gone
    cases found : LinkTree.evalSymlinks tree 255 [] (locate path) with
    | some real =>
      rw [found] at gone
      cases gone
      exact .inl (.found found)
    | none =>
      rw [found] at gone
      obtain ⟨parent, directory, rfl⟩ := Option.map_eq_some_iff.mp gone
      rcases List.eq_nil_or_concat' (locate path) with none_ | ⟨before, name, shape⟩
      · rw [none_] at found
        cases found
      · rw [shape] at directory ⊢
        rw [List.dropLast_concat] at directory
        rw [List.getLast?_concat, Option.getD_some]
        by_cases free : ∀ target, tree.get (parent ++ [name]) ≠ some (.link target)
        · exact .inl (.fresh shape found directory free)
        · obtain ⟨target, link⟩ := not_forall.mp free
          exact .inr (.link shape found directory (not_not.mp link))
  · have fallback : ∀ {before parent : Place} {name : Path}, locate path = before ++ [name] →
        LinkTree.evalSymlinks tree 255 [] (locate path) = none →
        LinkTree.evalSymlinks tree 255 [] before = some parent →
        goes tree (locate path) = some (parent ++ [name]) := by
      intro before parent name shape missing directory
      rw [goes, missing, shape]
      simp [directory]
    rintro (reaches | ⟨shape, missing, directory, link⟩)
    · cases reaches with
      | found found => rw [goes, found]
      | fresh shape missing directory free => exact fallback shape missing directory
    · exact fallback shape missing directory

variable {roots : List Path} {requested : Path}

/-- What is done with a request, by the place it goes to. -/
theorem resolve_eq (some_ : roots ≠ []) (abs : isAbs requested = true) :
    resolve tree roots requested =
      ((goes tree (locate requested)).map render).filter
        fun real => roots.any fun root => contains root real := by
  obtain ⟨first, rest, rfl⟩ := List.exists_cons_of_ne_nil some_
  have nonempty : requested ≠ [] := by
    rintro rfl
    cases abs
  have plain := plain_locate requested
  have plainToo : ∀ name ∈ (locate requested).dropLast, Plain name :=
    fun name member => plain name (List.dropLast_subset _ member)
  unfold resolve
  simp only [nonempty, abs, if_false, not_true_eq_false]
  congr 1
  rw [clean, evalSymlinks_render plain, goes]
  cases found : LinkTree.evalSymlinks tree 255 [] (locate requested) with
  | some place => rfl
  | none =>
    simp only [Option.map_none]
    rw [dir, base, locate_render plain, evalSymlinks_render plainToo, Option.map_map,
      Option.map_map]
    cases directory : LinkTree.evalSymlinks tree 255 [] (locate requested).dropLast with
    | none => rfl
    | some parent =>
      rcases List.eq_nil_or_concat' (locate requested) with none_ | ⟨before, last, shape⟩
      · rw [none_] at found
        cases found
      · have named : Plain last := plain last (by simp [shape])
        simp only [Option.map_some, Function.comp_apply, shape, List.getLast?_concat,
          Option.getD_some]
        rw [join_render (plain_of_eval plainToo directory) named]

/-! ## The roots -/

/-- The roots that are held, beside the ones that were configured. -/
def Held (tree : Tree) (root real : Path) : Prop :=
  ∃ place, LinkTree.evalSymlinks tree 255 [] (locate root) = some place ∧ real = render place

theorem held_of_resolveRoot {root real : Path} (resolved : resolveRoot tree root = .ok real) :
    Held tree root real := by
  unfold resolveRoot at resolved
  split at resolved
  · cases resolved
  · rw [clean, evalSymlinks_render (plain_locate root)] at resolved
    cases found : LinkTree.evalSymlinks tree 255 [] (locate root) with
    | none =>
      rw [found] at resolved
      cases resolved
    | some place =>
      rw [found] at resolved
      cases resolved
      exact ⟨place, found, rfl⟩

theorem held_of_resolveRoots {configured roots : List Path}
    (started : resolveRoots tree configured = .ok roots) :
    List.Forall₂ (Held tree) configured roots := by
  unfold resolveRoots at started
  induction configured generalizing roots with
  | nil =>
    cases started
    exact .nil
  | cons root rest ih =>
    rw [List.mapM_cons] at started
    cases first : resolveRoot tree root with
    | error error =>
      rw [first] at started
      cases started
    | ok real =>
      rw [first] at started
      cases later : rest.mapM (resolveRoot tree) with
      | error error =>
        simp only [later] at started
        cases started
      | ok reals =>
        simp only [later] at started
        cases started
        exact .cons (held_of_resolveRoot first) (ih later)

/-- A root that is held is the normal form of a place without links. -/
structure Real (tree : Tree) (root : Path) : Prop where
  normal : render (locate root) = root
  free : LinkFree tree (locate root)

theorem Held.real {root real : Path} (held : Held tree root real) : Real tree real := by
  obtain ⟨place, found, rfl⟩ := held
  have plain := plain_of_eval (plain_locate root) found
  have same := locate_render plain
  exact ⟨by rw [same], same.symm ▸ (leads_of_evalSymlinks found).linkFree linkFree_nil⟩

theorem real_of_held {configured : List Path}
    (held : List.Forall₂ (Held tree) configured roots) : ∀ root ∈ roots, Real tree root := by
  intro root member
  induction held with
  | nil => cases member
  | cons first later ih =>
    rcases List.mem_cons.mp member with rfl | deeper
    · exact first.real
    · exact ih deeper

theorem admits_iff (real : ∀ root ∈ roots, Real tree root) (plain : ∀ name ∈ place, Plain name) :
    (roots.any fun root => contains root (render place)) = true ↔ Admits roots place := by
  have each : ∀ root ∈ roots, contains root (render place) = true ↔
      locate root = place ∨ locate root ≠ [] ∧ locate root <+: place := by
    intro root member
    conv_lhs => rw [← (real root member).normal]
    exact contains_render_iff (plain_locate root) plain
  rw [List.any_eq_true]
  exact ⟨fun ⟨root, member, inside⟩ => ⟨root, member, (each root member).mp inside⟩,
    fun ⟨root, member, inside⟩ => ⟨root, member, (each root member).mpr inside⟩⟩

/-! ## The requests that are answered by their real location -/

theorem resolve_eq_some_iff (real : ∀ root ∈ roots, Real tree root)
    (abs : isAbs requested = true) {answer : Path} :
    resolve tree roots requested = some answer ↔
      ∃ place, (Reaches tree requested place ∨ Dangles tree requested place) ∧
        Admits roots place ∧ answer = render place := by
  by_cases some_ : roots = []
  · subst some_
    constructor
    · intro accepted
      cases accepted
    · rintro ⟨place, -, ⟨root, member, -⟩, -⟩
      cases member
  · rw [resolve_eq some_ abs, Option.filter_eq_some_iff]
    constructor
    · rintro ⟨gone, inside⟩
      obtain ⟨place, found, rfl⟩ := Option.map_eq_some_iff.mp gone
      have plain := plain_goes (plain_locate requested) found
      exact ⟨place, goes_iff.mp found, (admits_iff real plain).mp inside, rfl⟩
    · rintro ⟨place, reached, admitted, rfl⟩
      have found := goes_iff.mpr reached
      have plain := plain_goes (plain_locate requested) found
      exact ⟨by rw [found]; rfl, (admits_iff real plain).mpr admitted⟩

/-- A link is not the real location of anything. -/
theorem Dangles.not_leads {path : Path} (dangles : Dangles tree path place)
    (parts : List Path) : ¬ Leads tree [] parts place := by
  intro leads
  cases dangles with
  | link shape missing directory link =>
    exact leads.linkFree linkFree_nil _ List.prefix_rfl _ link

theorem plain_of_leads {path : Path}
    (leads : Leads tree [] (path.splitOn '/') place) : ∀ name ∈ place, Plain name :=
  leads.plain (fun _ => notMem_of_mem_splitOn) (by simp)

theorem names_abs_iff {configured : List Path} (abs : isAbs requested = true)
    : Names tree configured requested place ↔
      Leads tree [] (requested.splitOn '/') place := by
  constructor
  · intro names
    cases names with
    | first head leads => cases abs
    | absolute _ leads => exact leads
  · exact .absolute abs

/-- When a request for a path from the root is answered by its real location. -/
theorem faithful_abs_iff {configured : List Path} (held : List.Forall₂ (Held tree) configured roots)
    (abs : isAbs requested = true) :
    Faithful tree configured roots requested ↔
      (∃ place, Leads tree [] (requested.splitOn '/') place ∧ Reaches tree requested place ∧
        Under tree configured place ∧ Admits roots place) ∨
      (∀ place, Leads tree [] (requested.splitOn '/') place → ¬ Under tree configured place) ∧
        ∀ place, Reaches tree requested place ∨ Dangles tree requested place →
          ¬ Admits roots place := by
  unfold Faithful
  simp only [resolve_eq_some_iff (real_of_held held) abs, names_abs_iff abs]
  constructor
  · intro faithful
    by_cases accepted : ∃ place, (Reaches tree requested place ∨ Dangles tree requested place) ∧
        Admits roots place
    · obtain ⟨place, reached, admitted⟩ := accepted
      obtain ⟨other, leads, under, same⟩ :=
        (faithful (render place)).mp ⟨place, reached, admitted, rfl⟩
      have plain := plain_goes (plain_locate requested) (goes_iff.mpr reached)
      obtain rfl := render_inj plain (plain_of_leads leads) same
      refine .inl ⟨place, leads, ?_, under, admitted⟩
      exact reached.resolve_right fun dangles => dangles.not_leads _ leads
    · refine .inr ⟨fun place leads under => accepted ?_, fun place reached admitted =>
        accepted ⟨place, reached, admitted⟩⟩
      obtain ⟨other, reached, admitted, -⟩ :=
        (faithful (render place)).mpr ⟨place, leads, under, rfl⟩
      exact ⟨other, reached, admitted⟩
  · rintro (⟨place, leads, reaches, under, admitted⟩ | ⟨outside, unadmitted⟩) real
    · constructor
      · rintro ⟨other, reached, -, rfl⟩
        have same := (goes_iff.mpr reached).symm.trans (goes_iff.mpr (.inl reaches))
        cases same
        exact ⟨place, leads, under, rfl⟩
      · rintro ⟨other, leadsToo, -, rfl⟩
        obtain rfl := leads.unique leadsToo
        exact ⟨place, .inl reaches, admitted, rfl⟩
    · constructor
      · rintro ⟨place, reached, admitted, -⟩
        exact absurd admitted (unadmitted place reached)
      · rintro ⟨place, leads, under, -⟩
        exact absurd under (outside place leads)

/-- The empty request is answered by the first root. -/
theorem faithful_empty_iff {root : Path} {rest : List Path}
    (held : List.Forall₂ (Held tree) (root :: rest) roots) :
    Faithful tree (root :: rest) roots [] ↔
      ∃ place, Leads tree [] (root.splitOn '/') place ∧ Leads tree [] (locate root) place := by
  obtain ⟨real, reals, ⟨place, found, rfl⟩, rfl⟩ :
      ∃ real reals, Held tree root real ∧ roots = real :: reals := by
    cases held with
    | cons first later => exact ⟨_, _, first, rfl⟩
  have leads := leads_of_evalSymlinks found
  have plain := plain_of_eval (plain_locate root) found
  have answer : resolve tree (render place :: reals) [] = some (render place) := rfl
  have names : ∀ other, Names tree (root :: rest) [] other ↔
      Leads tree [] (root.splitOn '/') other := by
    intro other
    constructor
    · intro named
      cases named with
      | first head leads =>
        cases head
        exact leads
      | absolute abs _ => cases abs
    · exact .first rfl
  constructor
  · intro faithful
    obtain ⟨other, named, -, same⟩ := (faithful _).mp answer
    have raw := (names other).mp named
    obtain rfl := render_inj plain (plain_of_leads raw) same
    exact ⟨place, raw, leads⟩
  · rintro ⟨other, raw, cleaned⟩ real
    obtain rfl := leads.unique cleaned
    rw [answer]
    constructor
    · rintro ⟨⟩
      exact ⟨place, .first rfl raw, ⟨root, List.mem_cons_self, place, raw, List.prefix_rfl⟩, rfl⟩
    · rintro ⟨other, named, -, rfl⟩
      rw [raw.unique ((names other).mp named)]

end

/-- A directory `/s`, in it a link to a file outside of it that is not there. -/
def sharedTree : Tree :=
  ((Tree.bare.put [] ['e'] .dir).put [] ['s'] .dir).put [['s']] ['o'] (.link ['/', 'e', '/', 'x'])

theorem sharedTree_root : Leads sharedTree [] (['/', 's'].splitOn '/') [['s']] :=
  leads_of_evalSymlinks (show LinkTree.evalSymlinks sharedTree 255 [] [[], ['s']] = _ by
    decide)

end HelixKit.Files
