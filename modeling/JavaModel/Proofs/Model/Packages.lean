import JavaModel.Library.Registry
import JavaModel.Proofs.Model.Spelling

/-! Packages of classes, declared and guessed. A text tells its package before its first class, so
that every class of the unit has the package of the unit. What is made for the full name of a class
without its text has a package that is guessed from where capitals stand in the name. Where packages
are written without capitals and outermost classes with one, the guess is the package declared. -/

namespace JavaModel

open Name

/-! ### The package declared -/

/-- Every class of the unit has the package of the unit. -/
def SourceUnit.SharesPackage (u : SourceUnit) : Prop := ∀ c ∈ u.classes, c.package = u.package

namespace SourceUnit

variable {u : SourceUnit} {c : Class}

theorem SharesPackage.modify (h : u.SharesPackage) (i : ClassIndex) {f : Class → Class}
    (hf : ∀ c, (f c).package = c.package) : (Assembly.modifyClass u i f).SharesPackage := by
  intro c hc
  obtain ⟨n, hn⟩ := List.mem_iff_getElem?.mp hc
  change (Assembly.modifyClass u i f).classAt? ⟨n⟩ = some c at hn
  rw [classAt?_modifyClass] at hn
  obtain ⟨b, hb, rfl⟩ := Option.map_eq_some_iff.mp hn
  have hpackage : b.package = u.package := h b (List.mem_of_getElem? hb)
  split
  · exact (hf b).trans hpackage
  · exact hpackage

theorem SharesPackage.hang (h : u.SharesPackage) (hc : c.package = u.package) :
    (u.hang c).SharesPackage := by
  have hgrown : ({ u with classes := u.classes ++ [c] } : SourceUnit).SharesPackage :=
    List.forall_mem_append.mpr ⟨h, List.forall_mem_singleton.mpr hc⟩
  cases henclosing : c.enclosing with
  | none =>
    rw [hang_none henclosing]
    exact hgrown
  | some outer =>
    rw [hang_some henclosing]
    exact hgrown.modify outer fun _ => rfl

end SourceUnit

namespace Assembly

open SourceUnit

variable {a : Assembly} {e : Event} {t v : Telling}

theorem sharesPackage_beginClass (h : a.unit.SharesPackage) (w : Written.Class) :
    (a.beginClass w).unit.SharesPackage := by
  let index : ClassIndex := ⟨a.unit.classes.length⟩
  let s : Scope := ⟨a.unit.id, some index,
    w.typeParameters.map TypeParameter.name ++ a.typeScopes.flatten⟩
  let made := referClass s ⟨a.unit.id, index⟩ a.innermost (a.nextFullName w.name) a.unit.package
    (a.docFor (.onClass w.name)) w
  have hmade : (made.run a.slots).1.package = a.unit.package := rfl
  exact h.hang hmade

theorem sharesPackage_addField (h : a.unit.SharesPackage) (w : Written.Field) :
    (a.addField w).unit.SharesPackage := by
  unfold addField
  dsimp only
  split
  · exact h.modify _ fun _ => rfl
  · exact h

theorem sharesPackage_addMethod (h : a.unit.SharesPackage) (w : Written.Method) :
    (a.addMethod w).unit.SharesPackage := by
  unfold addMethod
  dsimp only
  split
  · exact h.modify _ fun c => (apply_ite Class.package _ _ _).trans (ite_self _)
  · exact h

/-- An assembly at a stage of a telling: its classes share the package, and there are none as long
as a package may be told. -/
structure Packaged (t : Telling) (a : Assembly) : Prop where
  early : t.phase.rank ≤ Phase.prologue.rank → a.unit.classes = []
  shared : a.unit.SharesPackage

theorem packaged_start (id : UnitId) (path : FilePath) : Packaged .start (start id path) :=
  ⟨fun _ => rfl, fun _ hc => absurd hc List.not_mem_nil⟩

/-- What may stand before a package leaves the unit as it is. -/
theorem unit_step_of_rank (he : e.rank ≤ Phase.prologue.rank) (a : Assembly) :
    (a.step e).unit = a.unit := by
  cases e with
  | beginSource | doc _ _ => rfl
  | _ => exact absurd he (by simp [Event.rank, Phase.rank])

theorem Packaged.step (h : Packaged t a) (he : t.after? e = some v) : Packaged v (a.step e) := by
  obtain ⟨rfl, rfl, rfl⟩ | ⟨hopen, -, hin⟩ := Telling.after?_cases he
  · exact ⟨fun _ => h.early (by decide), h.shared⟩
  · obtain ⟨hphase, hevent, -⟩ := Telling.inside?_rank hin hopen
    refine ⟨fun hearly => ?_, ?_⟩
    · rw [unit_step_of_rank (Nat.le_trans hevent hearly)]
      exact h.early (Nat.le_trans hphase hearly)
    · cases e with
      | package p =>
        intro c hc
        have hnone : (a.step (.package p)).unit.classes = [] := h.early (prologue_of_package hin)
        rw [hnone] at hc
        cases hc
      | beginClass w => exact sharesPackage_beginClass h.shared w
      | beginField w => exact sharesPackage_addField h.shared w
      | beginMethod w => exact sharesPackage_addMethod h.shared w
      | _ => exact h.shared

/-- However many events the protocol allows. -/
theorem Packaged.foldl {es : List Event} (h : Packaged t a) (hrun : t.run es = some v) :
    Packaged v (es.foldl Assembly.step a) := by
  induction es generalizing t a with
  | nil =>
    obtain rfl : t = v := by simpa using hrun
    exact h
  | cons e es ih =>
    rw [Telling.run_cons, Option.bind_eq_some_iff] at hrun
    obtain ⟨between, hbetween, hrun⟩ := hrun
    exact ih (h.step hbetween) hrun

end Assembly

namespace SourceUnit

variable {id : UnitId} {path : FilePath} {text : String} {u : SourceUnit} {i : ClassIndex}
  {c outer made : Class}

/-- The classes of a text have the package of the text. -/
theorem sharesPackage_ofText (h : ofText id path text = .ok u) : u.SharesPackage := by
  obtain ⟨t, ht⟩ := run_parse text
  rw [eq_ofEvents_of_ofText h]
  exact ((Assembly.packaged_start id path).foldl ht).shared

/-! ### The package guessed -/

/-- The class around a class, or the class itself, that stands inside no other. -/
def outermost? (u : SourceUnit) (i : ClassIndex) : Option Class := (u.scopeFrom (some i)).getLast?

theorem exists_outermost? (h : ofText id path text = .ok u) (hc : u.classAt? i = some c) :
    ∃ outer, u.outermost? i = some outer ∧ outer.enclosing = none := by
  have hlt : i.number < u.classes.length := (List.getElem?_eq_some_iff.mp hc).1
  exact (linked_ofText h).outward_last hlt hc

/-- The segments of a full name behind those of the package begin with the name of the outermost
class. -/
theorem segments_of_outermost? (h : ofText id path text = .ok u) (hc : u.classAt? i = some c)
    (houter : u.outermost? i = some outer) :
    ∃ inner, segments c.fullName = c.package.toList.flatMap segments ++ outer.name :: inner := by
  obtain ⟨more, hmore⟩ := List.getLast?_eq_some_iff.mp houter
  refine ⟨more.reverse.map (·.name), ?_⟩
  rw [segments_fullName h hc, hmore, sharesPackage_ofText h c (List.mem_of_getElem? hc)]
  simp

/-- The segments of a full name end with the name of the class. -/
theorem segments_name (h : ofText id path text = .ok u) (hc : u.classAt? i = some c) :
    ∃ front, segments c.fullName = front ++ [c.name] := by
  refine ⟨u.package.toList.flatMap segments ++
    (u.scopeFrom c.enclosing).reverse.map (·.name), ?_⟩
  rw [segments_fullName h hc, (linked_ofText h).scopeFrom_some hc]
  simp

end SourceUnit

/-- The package of a shape was guessed, as it is when a shape is made for a full name. -/
def ClassShape.GuessesPackage (s : ClassShape) : Prop := s.package = Name.package? s.fullName

theorem ClassShape.guessesPackage_plain (kind : ClassKind) (fullName : String) :
    (plain kind fullName).GuessesPackage := rfl

/-- A class made for a full name without a text that declares it: one of which nothing else is
known, such as a stub, or one that has a shape made for this name. -/
inductive Class.MadeFor (fullName : String) : Class → Prop where
  | bare (kind : ClassKind) (origin : ClassOrigin) : MadeFor fullName (.bare fullName kind origin)
  | shaped (s : ClassShape) :
      s.fullName = fullName → s.GuessesPackage → MadeFor fullName s.toClass

/-- What is made for a full name has the simple name and the package that the name suggests. -/
theorem Class.MadeFor.names {fullName : String} {made : Class} (h : made.MadeFor fullName) :
    made.name = Name.simple fullName ∧ made.package = Name.package? fullName := by
  cases h with
  | bare kind origin => exact ⟨rfl, rfl⟩
  | shaped s hname hguess => exact ⟨congrArg Name.simple hname, hname ▸ hguess⟩

namespace SourceUnit

variable {id : UnitId} {path : FilePath} {text : String} {u : SourceUnit} {i : ClassIndex}
  {c outer made : Class}

/-- The package guessed for a class is the one declared, if no segment of it is capitalized and the
outermost class is. -/
theorem package_of_made (h : ofText id path text = .ok u) (hc : u.classAt? i = some c)
    (houter : u.outermost? i = some outer)
    (hlow : ∀ p ∈ c.package, ∀ s ∈ segments p, isCapitalized s = false)
    (hcapital : isCapitalized outer.name) (hmade : made.MadeFor c.fullName) :
    made.name = c.name ∧ made.package = c.package := by
  obtain ⟨hname, hpackage⟩ := hmade.names
  obtain ⟨front, hfront⟩ := segments_name h hc
  obtain ⟨inner, hinner⟩ := segments_of_outermost? h hc houter
  exact ⟨hname.trans (simple_of_segments hfront),
    hpackage.trans (package?_of_segments hinner hlow hcapital)⟩

end SourceUnit

/-- The package guessed of a full name. For a class of a text, at any depth, it is the package that
the text declares, if no segment of that is capitalized and the outermost class around the class is;
and of whatever name, what is guessed stands in front of it, before a dot and between two
characters. -/
theorem package_guessed :
    (∀ text id path, (parse text).error = none → ∃ u, SourceUnit.ofText id path text = .ok u ∧
      ∀ i c, u.classAt? i = some c →
        ∃ outer, u.outermost? i = some outer ∧ outer.enclosing = none ∧
          ((∀ p ∈ c.package, ∀ s ∈ segments p, isCapitalized s = false) →
            isCapitalized outer.name →
            ∀ made : Class, made.MadeFor c.fullName →
              made.name = c.name ∧ made.package = c.package)) ∧
      ∀ name guess, Name.package? name = some guess →
        (∃ rest, name = guess ++ "." ++ rest) ∧ guess.rawEndPos.IsValid name := by
  refine ⟨fun text id path h => ?_, fun name guess h => ?_⟩
  · have hread := SourceUnit.ofText_of_parses h id path
    refine ⟨_, hread, fun i c hc => ?_⟩
    obtain ⟨outer, houter, hnone⟩ := SourceUnit.exists_outermost? hread hc
    exact ⟨outer, houter, hnone, fun hlow hcapital _ hmade =>
      SourceUnit.package_of_made hread hc houter hlow hcapital hmade⟩
  · obtain ⟨rest, hrest⟩ := exists_of_package? h
    have hcut : ∃ front behind, name = front ++ behind ∧ guess.rawEndPos = front.rawEndPos :=
      ⟨guess, "." ++ rest, hrest.trans (String.append_assoc ..), rfl⟩
    exact ⟨⟨rest, hrest⟩, String.Pos.Raw.isValid_iff_exists_append.mpr hcut⟩

/-- A class without a capital in a class with one, in a package of letters of several bytes. -/
theorem package_guessed_inner :
    let text := "package größe.ä; class Öl \x7b class fass \x7b\x7d \x7d"
    (parse text).error = none ∧ ∃ u, SourceUnit.ofText ⟨0⟩ ⟨"A.java"⟩ text = .ok u ∧
      ∃ c, u.classAt? ⟨1⟩ = some c ∧ c.fullName = "größe.ä.Öl.fass" ∧
        c.package = some "größe.ä" ∧ (Class.stub c.fullName).name = c.name ∧
        (Class.stub c.fullName).package = c.package ∧
        (ClassShape.plain .interfaceType c.fullName).toClass.package = c.package ∧
        "größe.ä".rawEndPos.IsValid c.fullName := by
  intro text
  have h : (parse text).error = none := by decide +kernel
  obtain ⟨u, hread, hall⟩ := package_guessed.1 text ⟨0⟩ ⟨"A.java"⟩ h
  obtain rfl := SourceUnit.eq_ofEvents_of_ofText hread
  let told := SourceUnit.ofEvents ⟨0⟩ ⟨"A.java"⟩ (parse text).events
  have hclass : (told.classAt? ⟨1⟩).map (fun c => (c.fullName, c.package)) =
      some ("größe.ä.Öl.fass", some "größe.ä") := by
    decide +kernel
  have hcapital : (told.outermost? ⟨1⟩).map (fun o => isCapitalized o.name) = some true := by
    decide +kernel
  obtain ⟨c, hc, hnames⟩ := Option.map_eq_some_iff.mp hclass
  obtain ⟨hname, hpackage⟩ := Prod.mk.inj hnames
  obtain ⟨outer, houter, -, hguess⟩ := hall ⟨1⟩ c hc
  obtain ⟨o, ho, hcapital⟩ := Option.map_eq_some_iff.mp hcapital
  obtain rfl : outer = o := Option.some.inj (houter.symm.trans ho)
  have hlow : ∀ p ∈ c.package, ∀ s ∈ segments p, isCapitalized s = false := by
    rw [hpackage]
    decide +kernel
  obtain ⟨hstub, hstubPackage⟩ := hguess hlow hcapital _ (.bare .plainClass .stub)
  obtain ⟨-, hshape⟩ := hguess hlow hcapital _
    (.shaped (.plain .interfaceType c.fullName) rfl (ClassShape.guessesPackage_plain ..))
  have hvalid := (package_guessed.2 "größe.ä.Öl.fass" "größe.ä" (by decide +kernel)).2
  exact ⟨h, _, hread, c, hc, hname, hpackage, hstub, hstubPackage, hshape, hname ▸ hvalid⟩

end JavaModel
