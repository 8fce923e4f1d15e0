import JavaModel.Proofs.Model.Arena
import JavaModel.Proofs.Name
import JavaModel.Proofs.Session.Resolving

/-! What a name in a unit means, as the first of a list. The list is read off the imports and the
classes as they were declared, duplicates, static imports and all, and names every class that the
name might mean; while the surroundings of the unit keep their answers, a resolution finds the
first of them. -/

namespace JavaModel

/-! ### Imports as they were declared -/

namespace SourceUnit

/-- The full names of single imports whose last segment is a name, in the order of declaration. -/
def imported (is : List Import) (name : String) : List String :=
  (is.filter fun i => !i.isStatic && !i.isWildcard && Name.simple i.name = name).map (·.name)

/-- The packages imported whole, in the order of declaration. -/
def importedWhole (is : List Import) : List String :=
  (is.filter fun i => !i.isStatic && i.isWildcard).map (·.name)

end SourceUnit

open SourceUnit

theorem ImportScope.find?_foldl (is : List Import) (scope : ImportScope) (name : String) :
    (is.foldl add scope).single.find? name =
      (scope.single.find? name).or (imported is name).head? := by
  induction is generalizing scope with
  | nil => simp [imported]
  | cons i is ih =>
    rw [List.foldl_cons, ih]
    cases hstatic : i.isStatic with
    | true => simp [add, imported, hstatic]
    | false =>
      cases hwildcard : i.isWildcard with
      | true => simp [add, imported, hstatic, hwildcard]
      | false =>
        by_cases hname : Name.simple i.name = name
        · simp [add, imported, hstatic, hwildcard, hname, Table.find?_record]
        · simp [add, imported, hstatic, hwildcard, hname, Table.find?_record]

/-- What stands in a list already is not found behind it. -/
theorem find?_append_cons_of_mem {l : List String} {name : String} (h : name ∈ l)
    (p : String → Bool) (rest : List String) :
    (l ++ name :: rest).find? p = (l ++ rest).find? p := by
  rw [List.find?_append, List.find?_append]
  cases hp : p name with
  | false => rw [List.find?_cons, hp]
  | true =>
    obtain ⟨found, hfound⟩ := Option.isSome_iff_exists.mp (List.find?_isSome.mpr ⟨name, h, hp⟩)
    rw [hfound]
    rfl

theorem ImportScope.find?_whole_foldl (is : List Import) (scope : ImportScope)
    (p : String → Bool) :
    (is.foldl add scope).whole.find? p = (scope.whole ++ importedWhole is).find? p := by
  induction is generalizing scope with
  | nil => simp [importedWhole]
  | cons i is ih =>
    rw [List.foldl_cons, ih]
    cases hstatic : i.isStatic with
    | true => simp [add, importedWhole, hstatic]
    | false =>
      cases hwildcard : i.isWildcard with
      | false => simp [add, importedWhole, hstatic, hwildcard]
      | true =>
        by_cases hold : i.name ∈ scope.whole
        · simp [add, importedWhole, hstatic, hwildcard, hold,
            find?_append_cons_of_mem hold p]
        · simp [add, importedWhole, hstatic, hwildcard, hold]

/-- The scope of some imports says what they say themselves, one after the other. -/
theorem ImportScope.ofImports_scan (is : List Import) :
    (∀ name, (ofImports is).single.find? name = (imported is name).head?) ∧
      ∀ p, (ofImports is).whole.find? p = (importedWhole is).find? p :=
  ⟨fun name => find?_foldl is empty name, fun p => find?_whole_foldl is empty p⟩

namespace SourceUnit

/-! ### Classes from the inside out -/

/-- Classes of a unit from the inside out: one at a place, then the one around it, up to one that
stands inside none. -/
inductive Outward (u : SourceUnit) : Option ClassIndex → List Class → Prop where
  | done : Outward u none []
  | missing {i : ClassIndex} (h : u.classAt? i = none) : Outward u (some i) []
  | step {i : ClassIndex} {c : Class} {cs : List Class} (h : u.classAt? i = some c)
      (more : Outward u c.enclosing cs) : Outward u (some i) (c :: cs)

variable {u : SourceUnit} {context : Option ClassIndex}

theorem Outward.unique {cs ds : List Class} (h : u.Outward context cs)
    (h' : u.Outward context ds) : cs = ds := by
  induction h generalizing ds with
  | done => cases h'; rfl
  | missing h =>
    cases h' with
    | missing => rfl
    | step hclass => rw [h] at hclass; cases hclass
  | step h more ih =>
    cases h' with
    | missing hnone => rw [h] at hnone; cases hnone
    | step hclass more' =>
      obtain rfl := Option.some.inj (h.symm.trans hclass)
      rw [ih more']

theorem Linked.outward (h : u.Linked) (n : Nat) (i : ClassIndex) (hn : i.number < n) :
    u.Outward (some i) (u.outward n (some i)) := by
  induction n generalizing i with
  | zero => exact absurd hn (Nat.not_lt_zero _)
  | succ n ih =>
    cases hc : u.classAt? i with
    | none =>
      simp only [SourceUnit.outward, hc]
      exact .missing hc
    | some c =>
      rw [outward_succ hc]
      refine .step hc ?_
      cases henclosing : c.enclosing with
      | none =>
        rw [outward_none]
        exact .done
      | some j =>
        have hlt := ((h.links i c hc).outer j henclosing).1
        exact ih j (by omega)

/-- The scope of a class goes outwards as far as there are classes. -/
theorem Linked.outward_scopeFrom (h : u.Linked) (context : Option ClassIndex) :
    u.Outward context (u.scopeFrom context) := by
  cases context with
  | none =>
    rw [scopeFrom, outward_none]
    exact .done
  | some i =>
    by_cases hi : i.number < u.classes.length
    · exact h.outward _ i hi
    · have hnone : u.classAt? i = none := List.getElem?_eq_none (Nat.le_of_not_lt hi)
      have hscope : u.scopeFrom (some i) = [] := by
        unfold scopeFrom
        cases u.classes.length with
        | zero => rfl
        | succ n => simp only [SourceUnit.outward, hnone]
      rw [hscope]
      exact .missing hnone

/-! ### The meanings of a name -/

/-- The full names that a name has in a class: its own, and those of classes nested directly in
it. -/
def named (u : SourceUnit) (name : String) (c : Class) : List String :=
  ((c :: u.nestedClasses c).filter fun d => d.name = name).map (·.fullName)

/-- Every full name that a simple name may mean inside some classes, the one that counts first:
single imports, the classes from the inside out, classes of the top level, and of the package, of
packages imported whole and of implicit packages what is known. -/
def meanings (u : SourceUnit) (known : String → Bool) (implicitPackages : List String)
    (scope : List Class) (name : String) : List String :=
  imported u.imports name ++ scope.flatMap (u.named name) ++
    ((u.topLevelClasses.filter fun c => c.name = name).map (·.fullName)) ++
    (Name.join u.package name :: (importedWhole u.imports ++ implicitPackages).map
      fun p => p ++ "." ++ name).filter known

theorem head?_named (u : SourceUnit) (name : String) (c : Class) :
    (u.named name c).head? = if c.name = name then some c.fullName
      else ((u.nestedClasses c).find? fun n => n.name = name).map (·.fullName) := by
  rw [named, List.head?_map, List.head?_filter, List.find?_cons]
  by_cases hname : c.name = name <;> simp [hname]

theorem inScope?_eq (u : SourceUnit) (context : Option ClassIndex) (name : String) :
    u.inScope? context name = ((u.scopeFrom context).flatMap (u.named name)).head?.or
      ((u.topLevelClasses.filter fun c => c.name = name).map (·.fullName)).head? := by
  rw [inScope?, List.head?_flatMap, List.head?_map, List.head?_filter]
  simp only [head?_named]

theorem find?_candidates (u : SourceUnit) (known : String → Bool) (implicitPackages : List String)
    (name : String) : (u.candidates implicitPackages name).find? known =
      (Name.join u.package name :: (importedWhole u.imports ++ implicitPackages).map
        fun p => p ++ "." ++ name).find? known := by
  rw [candidates, List.find?_cons, List.find?_cons, List.find?_map, List.find?_map,
    List.find?_append, List.find?_append, (ImportScope.ofImports_scan u.imports).2]

/-- The first meaning is found in a single import, in scope, or among the candidates. -/
theorem head?_meanings (u : SourceUnit) (known : String → Bool) (implicitPackages : List String)
    (context : Option ClassIndex) (name : String) :
    (u.meanings known implicitPackages (u.scopeFrom context) name).head? =
      ((((ImportScope.ofImports u.imports).single.find? name).or (u.inScope? context name))).or
        ((u.candidates implicitPackages name).find? known) := by
  rw [meanings, List.head?_append, List.head?_append, List.head?_append, List.head?_filter,
    find?_candidates, inScope?_eq, (ImportScope.ofImports_scan u.imports).1]
  simp only [Option.or_assoc]

/-! ### Steady surroundings -/

section Steady

variable {σ : Type} {isKnown : String → StateM σ Bool} {known : String → Bool} {s : σ}

theorem run_bind {α β : Type} (x : StateM σ α) (f : α → StateM σ β) (s : σ) :
    (x >>= f) s = f (x s).1 (x s).2 := rfl

/-- The state after some questions. -/
def asked (isKnown : String → StateM σ Bool) (questions : List String) (s : σ) : σ :=
  questions.foldl (fun s name => (isKnown name s).2) s

/-- While questions are asked in order up to the first with the answer yes, the answer to each of
them does not change. -/
def Steady (isKnown : String → StateM σ Bool) (known : String → Bool) (questions : List String)
    (s : σ) : Prop :=
  ∀ front, front <+: questions → (∀ name ∈ front, known name = false) →
    ∀ name ∈ questions, (isKnown name (asked isKnown front s)).1 = known name

theorem Steady.cons {name : String} {names : List String}
    (h : Steady isKnown known (name :: names) s) :
    (isKnown name s).1 = known name ∧
      (known name = false → Steady isKnown known names (isKnown name s).2) := by
  refine ⟨h [] List.nil_prefix (by simp) name List.mem_cons_self, fun hname => ?_⟩
  intro front hfront hfailed other hother
  exact h (name :: front) (List.cons_prefix_cons.mpr ⟨rfl, hfront⟩)
    (List.forall_mem_cons.mpr ⟨hname, hfailed⟩) other (List.mem_cons_of_mem _ hother)

/-- The first known name is found, and if there is none then what comes behind stays steady. -/
theorem Steady.firstKnown {names more : List String}
    (h : Steady isKnown known (names ++ more) s) :
    (firstKnown isKnown names s).1 = names.find? known ∧
      (names.find? known = none → Steady isKnown known more (firstKnown isKnown names s).2) := by
  induction names generalizing s with
  | nil => exact ⟨rfl, fun _ => h⟩
  | cons name names ih =>
    obtain ⟨hanswer, hmore⟩ := h.cons
    have hstep : JavaModel.firstKnown isKnown (name :: names) s =
        if (isKnown name s).1 then (some name, (isKnown name s).2)
        else JavaModel.firstKnown isKnown names (isKnown name s).2 := by
      rw [JavaModel.firstKnown]
      change (if (isKnown name s).1 then _ else _ : StateM σ _) (isKnown name s).2 = _
      split <;> rfl
    rw [hstep, hanswer, List.find?_cons]
    cases hname : known name with
    | true => exact ⟨rfl, fun hnone => absurd hnone (Option.some_ne_none name)⟩
    | false => exact ih (hmore hname)

variable {u : SourceUnit} {around : Surroundings (StateM σ)} {context : Option ClassIndex}

/-- A simple name means the first of its meanings. -/
theorem Steady.resolveSimple {name : String} {more : List String}
    (h : Steady around.isKnown known (u.candidates around.implicitPackages name ++ more) s) :
    (u.resolveSimple around context name s).1 =
        (u.meanings known around.implicitPackages (u.scopeFrom context) name).head? ∧
      ((u.resolveSimple around context name s).1 = none →
        Steady around.isKnown known more (u.resolveSimple around context name s).2) := by
  rw [head?_meanings]
  unfold SourceUnit.resolveSimple
  cases ((ImportScope.ofImports u.imports).single.find? name).or (u.inScope? context name) with
  | some fullName => exact ⟨rfl, fun hnone => absurd hnone (Option.some_ne_none fullName)⟩
  | none =>
    obtain ⟨hfirst, hmore⟩ := h.firstKnown
    exact ⟨hfirst, fun hnone => hmore (hfirst.symm.trans hnone)⟩

theorem splitHead_of_not_mem {name : String} (h : '.' ∉ name.toList) :
    splitHead name = (name, none) := by
  rw [splitHead, Name.segments_of_not_mem h]

theorem splitHead_append {head : String} (h : '.' ∉ head.toList) (rest : String) :
    splitHead (head ++ "." ++ rest) = (head, some rest) := by
  obtain ⟨next, others, hrest⟩ : ∃ next others, Name.segments rest = next :: others :=
    List.exists_cons_of_ne_nil (Name.segments_ne_nil rest)
  have hsegments : Name.segments (head ++ "." ++ rest) = head :: next :: others := by
    rw [Name.segments_append, Name.segments_of_not_mem h, hrest, List.singleton_append]
  rw [splitHead, hsegments]
  dsimp only
  rw [← hrest, Name.ofSegments_segments]

/-- An undotted name is a simple one. -/
theorem Steady.resolveName_undotted {name : String} (hfree : '.' ∉ name.toList)
    (h : Steady around.isKnown known (u.namesSought around.implicitPackages name) s) :
    (u.resolveName around context name s).1 =
      (u.meanings known around.implicitPackages (u.scopeFrom context) name).head? := by
  rw [namesSought, splitHead_of_not_mem hfree] at h
  rw [SourceUnit.resolveName, splitHead_of_not_mem hfree]
  rw [← List.append_nil (u.candidates _ _)] at h
  exact h.resolveSimple.1

/-- A dotted name follows what its first segment means, or may stand for itself. -/
theorem Steady.resolveName_dotted {head rest : String} (hfree : '.' ∉ head.toList)
    (h : Steady around.isKnown known
      (u.namesSought around.implicitPackages (head ++ "." ++ rest)) s) :
    (u.resolveName around context (head ++ "." ++ rest) s).1 =
      match (u.meanings known around.implicitPackages (u.scopeFrom context) head).head? with
      | some outer => some (outer ++ "." ++ rest)
      | none =>
        if known (head ++ "." ++ rest) || isPackageLike head then some (head ++ "." ++ rest)
        else none := by
  rw [namesSought, splitHead_append hfree] at h
  obtain ⟨hhead, hmore⟩ := @Steady.resolveSimple _ _ _ u around context _ _ h
  rw [SourceUnit.resolveName, splitHead_append hfree]
  dsimp only
  rw [run_bind, ← hhead]
  cases hmeaning : (u.resolveSimple around context head s).1 with
  | some outer => rfl
  | none =>
    obtain ⟨hknown, _⟩ := (hmore hmeaning).cons
    dsimp only
    rw [run_bind, hknown]
    cases known (head ++ "." ++ rest) <;> cases isPackageLike head <;> rfl

end Steady

/-- In a unit that events tell, a simple name means the first of its meanings, and a dotted name
what its first segment means with the others behind it. If that segment means nothing, the dotted
name means itself if it is known or looks like one of a package. The tables of imports that are used
for this agree with the imports as they were declared. -/
theorem resolveName_first {σ : Type} (id : UnitId) (path : FilePath) (es : List Event)
    (around : Surroundings (StateM σ)) (known : String → Bool) (context : Option ClassIndex)
    (name : String) (s : σ)
    (hsteady : Steady around.isKnown known
      ((ofEvents id path es).namesSought around.implicitPackages name) s) :
    let u := ofEvents id path es
    ∃ scope, u.Outward context scope ∧
      ('.' ∉ name.toList → (u.resolveName around context name s).1 =
        (u.meanings known around.implicitPackages scope name).head?) ∧
      (∀ head rest, '.' ∉ head.toList → name = head ++ "." ++ rest →
        (u.resolveName around context name s).1 =
          match (u.meanings known around.implicitPackages scope head).head? with
          | some outer => some (outer ++ "." ++ rest)
          | none => if known name || isPackageLike head then some name else none) ∧
      (∀ n, (ImportScope.ofImports u.imports).single.find? n = (imported u.imports n).head?) ∧
      ∀ p, (ImportScope.ofImports u.imports).whole.find? p =
        (importedWhole u.imports).find? p := by
  intro u
  have hlinked : u.Linked := ((Assembly.orderly_start id path).foldl es).linked
  obtain ⟨hsingle, hwhole⟩ := ImportScope.ofImports_scan u.imports
  refine ⟨u.scopeFrom context, hlinked.outward_scopeFrom context, ?_, ?_, hsingle, hwhole⟩
  · exact fun hfree => hsteady.resolveName_undotted hfree
  · rintro head rest hfree rfl
    exact hsteady.resolveName_dotted hfree

/-- In surroundings that count their questions, but always answer alike: a class nested in the
context is found before one of an implicit package, and the rest of a dotted name follows it. -/
theorem resolveName_first_nested :
    let text := "import p.*; class Outer \x7b class Entry \x7b\x7d \x7d"
    let u := ofEvents ⟨0⟩ ⟨"Outer.java"⟩ (parse text).events
    let known (name : String) : Bool := name = "java.lang.Entry"
    let around : Surroundings (StateM Nat) :=
      ⟨fun name count => (known name, count + 1), ["java.lang"]⟩
    Steady around.isKnown known (u.namesSought around.implicitPackages "Entry.Key") 0 ∧
      (u.resolveName around (some ⟨0⟩) "Entry.Key" 0).1 = some "Outer.Entry.Key" := by
  intro text u known around
  have hsteady : Steady around.isKnown known
      (u.namesSought around.implicitPackages "Entry.Key") 0 := fun _ _ _ _ _ => rfl
  obtain ⟨scope, houtward, _, hdotted, _⟩ :=
    resolveName_first ⟨0⟩ ⟨"Outer.java"⟩ (parse text).events around known (some ⟨0⟩) "Entry.Key" 0
      hsteady
  have hlinked : u.Linked :=
    ((Assembly.orderly_start ⟨0⟩ ⟨"Outer.java"⟩).foldl (parse text).events).linked
  obtain rfl := houtward.unique (hlinked.outward_scopeFrom (some ⟨0⟩))
  have hmeanings : (u.meanings known around.implicitPackages (u.scopeFrom (some ⟨0⟩)) "Entry").head?
      = some "Outer.Entry" := by
    decide +kernel
  refine ⟨hsteady, (hdotted "Entry" "Key" (by decide) rfl).trans ?_⟩
  rw [hmeanings]
  rfl

end SourceUnit

end JavaModel
