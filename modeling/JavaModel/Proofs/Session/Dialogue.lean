import JavaModel.Proofs.Session.Congruence

/-! What a host may say to a session and what the session replies, turn by turn. Sessions that are
the same but for the ids of their units reply the same but for ids, however long the dialogue. And
whatever has been said to a session, its units were read from texts, and it knows no meaning of a
name but of names in its units. -/

namespace JavaModel

namespace Session

/-- What a host may ask. -/
inductive Question where
  | classNamed (fullName : String)
  | hasClass (fullName : String)
  | resolve (r : TypeRef)
  /-- Resolves a reference without the library. -/
  | resolveAmongUnits (r : TypeRef)
  | genericValue (r : TypeRef)
  | isResolved (r : TypeRef)
  | superclassName (c : Class)
  | superclassOf (c : Class)
  | interfacesOf (c : Class)
  | ancestors (c : Class)
  | isA (c : Class) (fullName : String)
  | parameterTypes (m : Method)
  | signature (m : Method)
  | hasSignature (m : Method) (name : String) (types : List String)
  | method? (c : Class) (name : String) (types : List String)
  | constructor? (c : Class) (types : List String)
  | unit? (id : UnitId)
  /-- The class of a name among the units of the session. -/
  | declared (fullName : String)
  | counts
  | units
  | classes
  | packages
  | unresolved
  | check

/-- Whether the answer lists something in the order of the units. -/
def Question.isListing : Question → Bool
  | .units | .classes | .packages | .unresolved | .check => true
  | _ => false

/-- One source that a host adds. -/
inductive Source where
  | text (path : FilePath) (text : String)
  /-- What a reader gives: its bytes, or its fault. -/
  | reader (path : FilePath) (given : Except ReadFault ByteArray)
  | file (path : FilePath)

/-- What a host may say. -/
inductive Turn where
  | ask (q : Question)
  | add (x : Source)
  /-- Adds a directory, whose files come to their ids as the numbering says if it has an id for
  each, and in order if not. -/
  | addTree (numbering : Numbering) (dir : FilePath)

/-- What a session replies. -/
inductive Reply where
  | answer (a : Option Answer)
  | answers (as : List Answer)
  /-- The classes above a class, if there is an end to them. -/
  | above (as : Option (List Answer))
  | truth (b : Bool)
  /-- Whether a class is below another, if there is an end to the classes above it. -/
  | below (b : Option Bool)
  | text (t : String)
  | texts (ts : List String)
  | name (n : Option String)
  | method (m : Option Method)
  | unit (u : Option SourceUnit)
  | declared (c : Option Class)
  | counts (hits misses : Nat)
  | units (us : List SourceUnit)
  | classes (cs : List Class)
  | unresolved (rs : List UnresolvedReference)
  | diagnostics (ds : List Diagnostic)
  | added (result : Except SourceError Registered)
  | loaded (result : Except SourceError LoadReport)

/-- The answer to a question. -/
def ask : Question → Query Reply
  | .classNamed fullName => do pure (.answer (← classNamed fullName))
  | .hasClass fullName => do pure (.truth (← hasClass fullName))
  | .resolve r => do pure (.text (← resolveRef r))
  | .resolveAmongUnits r => do pure (.text (← resolve onlySources r))
  | .genericValue r => do pure (.text (← genericValue (← get).library r))
  | .isResolved r => do pure (.truth (r.isResolved (← get).known))
  | .superclassName c => do pure (.name (← superclassName c))
  | .superclassOf c => do pure (.answer (← superclassOf c))
  | .interfacesOf c => do pure (.answers (← interfacesOf c))
  | .ancestors c => do pure (.above (← ancestors c))
  | .isA c fullName => do pure (.below (← isA c fullName))
  | .parameterTypes m => do pure (.texts (← parameterTypes m))
  | .signature m => do pure (.text (← signature m))
  | .hasSignature m name types => do pure (.truth (← hasSignature m name types))
  | .method? c name types => do pure (.method (← method? c name types))
  | .constructor? c types => do pure (.method (← constructor? c types))
  | .unit? id => do pure (.unit ((← get).sources.unit? id))
  | .declared fullName => do pure (.declared ((← get).sources.class? fullName))
  | .counts => do pure (.counts (← get).hits (← get).misses)
  | .units => do pure (.units (← get).sources.units)
  | .classes => do pure (.classes (← get).sources.classes)
  | .packages => do pure (.texts (← get).sources.packages)
  | .unresolved => do pure (.unresolved (← unresolved))
  | .check => do pure (.diagnostics (← check))

/-- Adds a source. -/
def addSource : Source → Query (Except SourceError Registered)
  | .text path text => addText path text
  | .reader path given => addReader path given
  | .file path => addFile path

/-- The source files below a path, in order. -/
def filesBelow (s : Session) (dir : FilePath) : List FilePath :=
  sourceFiles s.options.extension (s.tree.walk dir)

/-- The numbering has an id for each file below the path that can be read. -/
def Numbers (s : Session) (dir : FilePath) (numbering : Numbering) : Prop :=
  numbering.count = readableCount s.tree (s.filesBelow dir)

instance (s : Session) (dir : FilePath) (numbering : Numbering) :
    Decidable (s.Numbers dir numbering) := inferInstanceAs (Decidable (_ = _))

/-- The reply at one turn. -/
def respond : Turn → Query Reply
  | .ask q => ask q
  | .add x => do pure (.added (← addSource x))
  | .addTree numbering dir => do
    if (← get).Numbers dir numbering then
      do pure (.loaded (← loadTree numbering.order dir))
    else do pure (.loaded (← addTree dir))

/-- The replies at turns in order. -/
def converse (ts : List Turn) : Query (List Reply) := ts.mapM respond

/-! ### Other ids -/

variable (ρ : Renaming)

/-- The question with the other ids in it. -/
def Question.rename : Question → Question
  | .resolve r => .resolve (r.rename ρ)
  | .resolveAmongUnits r => .resolveAmongUnits (r.rename ρ)
  | .genericValue r => .genericValue (r.rename ρ)
  | .isResolved r => .isResolved (r.rename ρ)
  | .superclassName c => .superclassName (c.rename ρ)
  | .superclassOf c => .superclassOf (c.rename ρ)
  | .interfacesOf c => .interfacesOf (c.rename ρ)
  | .ancestors c => .ancestors (c.rename ρ)
  | .isA c fullName => .isA (c.rename ρ) fullName
  | .parameterTypes m => .parameterTypes (m.rename ρ)
  | .signature m => .signature (m.rename ρ)
  | .hasSignature m name types => .hasSignature (m.rename ρ) name types
  | .method? c name types => .method? (c.rename ρ) name types
  | .constructor? c types => .constructor? (c.rename ρ) types
  | .unit? id => .unit? (ρ id)
  | q => q

def Turn.rename : Turn → Turn
  | .ask q => .ask (q.rename ρ)
  | t => t

/-- The reply with the other ids in it. -/
def Reply.rename : Reply → Reply
  | .answer a => .answer (a.map (Answer.rename ρ))
  | .answers as => .answers (as.map (Answer.rename ρ))
  | .above as => .above (as.map (List.map (Answer.rename ρ)))
  | .method m => .method (m.map (Method.rename ρ))
  | .unit u => .unit (u.map (SourceUnit.rename ρ))
  | .declared c => .declared (c.map (Class.rename ρ))
  | .units us => .units (us.map (SourceUnit.rename ρ))
  | .classes cs => .classes (cs.map (Class.rename ρ))
  | .added result => .added (result.map (Registered.rename ρ))
  | .loaded result => .loaded (result.map (LoadReport.rename ρ))
  | r => r

open Query

variable {ρ} {ordered : Prop} {S : Session → Session → Prop} {s t : Session}

/-- Questions keep what finding and recording keep, and are answered alike. -/
theorem Congruent.relates_ask (h : Congruent ρ ordered S) (q : Question)
    (hq : q.isListing → ordered) :
    Relates S (Reply.rename ρ · = ·) (ask q) (ask (q.rename ρ)) := by
  have hget {f f' : Session → Reply}
      (hf : ∀ s t, s.Alike ρ ordered t → (f s).rename ρ = f' t) :
      Relates S (Reply.rename ρ · = ·) (do pure (f (← get))) (do pure (f' (← get))) :=
    fun s t hst => ⟨hf s t (h.same hst), hst⟩
  cases q with
  | classNamed n => exact (h.relates_classNamed n).bindMap fun _ => relates_pure rfl
  | hasClass n => exact (h.relates_hasClass n).bindEq fun _ => relates_pure rfl
  | resolve r => exact (h.relates_resolveRef r).bindEq fun _ => relates_pure rfl
  | resolveAmongUnits r => exact (h.relates_resolveAmongUnits r).bindEq fun _ => relates_pure rfl
  | genericValue r => exact (h.relates_genericValueRef r).bindEq fun _ => relates_pure rfl
  | isResolved r =>
    exact hget fun s t hst => congrArg Reply.truth (hst.isResolved r).symm
  | superclassName c => exact (h.relates_superclassName c).bindEq fun _ => relates_pure rfl
  | superclassOf c => exact (h.relates_superclassOf c).bindMap fun _ => relates_pure rfl
  | interfacesOf c => exact (h.relates_interfacesOf c).bindMap fun _ => relates_pure rfl
  | ancestors c => exact (h.relates_ancestors c).bindMap fun _ => relates_pure rfl
  | isA c n => exact (h.relates_isA c n).bindEq fun _ => relates_pure rfl
  | parameterTypes m => exact (h.relates_parameterTypes m).bindEq fun _ => relates_pure rfl
  | signature m => exact (h.relates_signature m).bindEq fun _ => relates_pure rfl
  | hasSignature m n types =>
    exact (h.relates_hasSignature m n types).bindEq fun _ => relates_pure rfl
  | method? c n types => exact (h.relates_method? c n types).bindMap fun _ => relates_pure rfl
  | constructor? c types => exact (h.relates_constructor? c types).bindMap fun _ => relates_pure rfl
  | unit? id => exact hget fun s t hst => congrArg Reply.unit (hst.sources.unit? id).symm
  | declared n => exact hget fun s t hst => congrArg Reply.declared (hst.sources.class? n).symm
  | counts => exact hget fun s t hst => congrArg₂ Reply.counts hst.hits.symm hst.misses.symm
  | units => exact hget fun s t hst => congrArg Reply.units (hst.sources.inOrder (hq rfl)).symm
  | classes => exact hget fun s t hst => congrArg Reply.classes (hst.sources.classes (hq rfl)).symm
  | packages => exact hget fun s t hst => congrArg Reply.texts (hst.sources.packages (hq rfl)).symm
  | unresolved => exact (h.relates_unresolved (hq rfl)).bindEq fun _ => relates_pure rfl
  | check => exact (h.relates_check (hq rfl)).bindEq fun _ => relates_pure rfl

/-- What is kept where a class is looked for and a meaning is recorded is kept by every question. -/
theorem ask_keeps {P : Session → Prop}
    (hfind : ∀ {s : Session}, P s → ∀ onlyExisting name, P (find onlyExisting name s).2)
    (hrecord : ∀ {s : Session} {slot : Slot}, P s → (s.sources.unit? slot.source).isSome →
      ∀ fullName, P { s with known := s.known.record slot fullName })
    (hs : P s) (q : Question) : P (ask q s).2 :=
  ((congruent_self hfind hrecord).relates_ask q (fun _ => trivial) s s ⟨rfl, hs⟩).2.2

/-- What every turn keeps is kept by a dialogue. -/
theorem converse_keeps {P : Session → Prop}
    (hrespond : ∀ {s : Session}, P s → ∀ turn, P (respond turn s).2) (hs : P s)
    (ts : List Turn) : P (converse ts s).2 := by
  induction ts generalizing s with
  | nil => exact hs
  | cons turn ts ih =>
    rw [converse, List.mapM_cons, bind_apply, bind_apply]
    exact ih (hrespond hs turn)

theorem alike_addSource (x : Source) :
    Relates (Alike ρ ordered) (Except.map (Registered.rename ρ) · = ·) (addSource x)
      (addSource x) := by
  cases x with
  | text path text => exact alike_addText path text
  | reader path given => exact alike_addReader path given
  | file path => exact alike_addFile path

theorem Alike.numbers (h : s.Alike ρ ordered t) (dir : FilePath) (numbering : Numbering) :
    t.Numbers dir numbering ↔ s.Numbers dir numbering := by
  unfold Numbers filesBelow
  rw [h.tree, h.options]

theorem alike_respond (turn : Turn) (h : ∀ q, turn = .ask q → q.isListing → ordered) :
    Relates (Alike ρ ordered) (Reply.rename ρ · = ·) (respond turn) (respond (turn.rename ρ)) := by
  cases turn with
  | ask q => exact congruent_alike.relates_ask q (h q rfl)
  | add x => exact (alike_addSource x).bindMap fun _ => relates_pure rfl
  | addTree numbering dir =>
    refine relates_get.bind fun s t hst => ?_
    simp only [hst.numbers]
    exact .ite ((alike_loadTree numbering.order dir).bindMap fun _ => relates_pure rfl)
      ((alike_loadTree id dir).bindMap fun _ => relates_pure rfl)

theorem alike_converse (ts : List Turn)
    (h : ∀ q, .ask q ∈ ts → q.isListing → ordered) :
    Relates (Alike ρ ordered) (List.map (Reply.rename ρ) · = ·) (converse ts)
      (converse (ts.map (Turn.rename ρ))) := by
  refine (Relates.forall₂ fun turn hturn => alike_respond turn ?_).mono fun hreplies => ?_
  · rintro q rfl
    exact h q hturn
  · rwa [← List.forall₂_eq_eq_eq, List.forall₂_map_left_iff]

end Session

end JavaModel
