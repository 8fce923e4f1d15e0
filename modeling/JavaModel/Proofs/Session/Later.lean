import JavaModel.Proofs.Session.Ascent
import JavaModel.Proofs.Session.Naming
import JavaModel.Proofs.Session.Questions

/-! A session at a later time: after some dialogue. Questions that a host can ask lead there, and so
do the parts of a walk upwards, which ask for the supertypes of one class after the other. -/

namespace JavaModel.Session

/-- `t` is the session `s` after some dialogue. -/
def Later (s t : Session) : Prop := ∃ ts, t = (converse ts s).2

variable {s t : Session}

theorem Later.refl (s : Session) : s.Later s := ⟨[], rfl⟩

theorem Later.trans {r : Session} (h : r.Later s) (h' : s.Later t) : r.Later t := by
  obtain ⟨ts, rfl⟩ := h
  obtain ⟨ts', rfl⟩ := h'
  refine ⟨ts ++ ts', ?_⟩
  rw [converse, converse, converse, List.mapM_append]
  rfl

theorem later_respond (turn : Turn) (s : Session) : s.Later (respond turn s).2 := ⟨[turn], rfl⟩

theorem Reachable.later (h : s.Reachable) (ht : s.Later t) : t.Reachable := by
  obtain ⟨ts, rfl⟩ := ht
  exact h.converse ts

theorem Sound.later (h : s.Sound) (ht : s.Later t) : t.Sound ∧ s.Leads t := by
  obtain ⟨ts, rfl⟩ := ht
  exact h.converse ts

theorem later_classNamed (name : String) (s : Session) : s.Later (classNamed name s).2 :=
  later_respond (.ask (.classNamed name)) s

theorem later_resolveRef (r : TypeRef) (s : Session) : s.Later (resolveRef r s).2 :=
  later_respond (.ask (.resolve r)) s

theorem findAll_cons (r : TypeRef) (rs : List TypeRef) (s : Session) :
    findAll (r :: rs) s =
      let meaning := resolveRef r s
      let first := classNamed meaning.1 meaning.2
      ((first.1.toList ++ (findAll rs first.2).1), (findAll rs first.2).2) := rfl

theorem later_findAll (rs : List TypeRef) (s : Session) : s.Later (findAll rs s).2 := by
  induction rs generalizing s with
  | nil => exact .refl s
  | cons r rs ih =>
    exact ((later_resolveRef r s).trans (later_classNamed _ _)).trans (ih _)

theorem later_superclassOf (c : Class) (s : Session) : s.Later (superclassOf c s).2 :=
  later_respond (.ask (.superclassOf c)) s

theorem later_interfacesOf (c : Class) (s : Session) : s.Later (interfacesOf c s).2 :=
  later_findAll c.interfaces s

theorem directSupertypes_eq (c : Class) (s : Session) :
    directSupertypes c s =
      ((superclassOf c s).1.toList ++ (interfacesOf c (superclassOf c s).2).1,
        (interfacesOf c (superclassOf c s).2).2) := rfl

theorem later_directSupertypes (c : Class) (s : Session) : s.Later (directSupertypes c s).2 :=
  (later_superclassOf c s).trans (later_interfacesOf c _)

theorem Walks.later {seen : List String} {queue found : List Answer}
    (h : Walks seen queue s found t) : s.Later t := by
  induction h with
  | done => exact .refl _
  | @next _ a _ _ s _ _ ih => exact (later_directSupertypes a.found s).trans ih

/-! ### Questions -/

/-- `t` is the session `s` after some questions. -/
def Questioned (s t : Session) : Prop := ∃ qs : List Question, t = (converse (qs.map .ask) s).2

theorem Questioned.later (h : s.Questioned t) : s.Later t := h.imp' (List.map .ask) fun _ => id

theorem Questioned.refl (s : Session) : s.Questioned s := ⟨[], rfl⟩

theorem Questioned.ask (h : s.Questioned t) (q : Question) :
    s.Questioned (Session.ask q t).2 := by
  obtain ⟨qs, rfl⟩ := h
  refine ⟨qs ++ [q], ?_⟩
  rw [List.map_append, converse, converse, List.mapM_append]
  rfl

/-- What every question keeps holds behind questions. -/
theorem Questioned.keeps {P : Session → Prop} (hask : ∀ {s : Session}, P s → ∀ q, P (Session.ask q s).2)
    (h : s.Questioned t) (hs : P s) : P t := by
  obtain ⟨qs, rfl⟩ := h
  induction qs generalizing s with
  | nil => exact hs
  | cons q qs ih =>
    rw [List.map_cons, converse, List.mapM_cons, bind_apply, bind_apply]
    exact ih (hask hs q)

theorem ensures_questioned {α : Type} {query : Query α} (q : Question)
    (h : ∀ t, (query t).2 = (ask q t).2) :
    Query.Ensures s.Questioned query fun _ => True := fun t ht =>
  ⟨h t ▸ ht.ask q, trivial⟩

theorem ensures_questioned_resolveRef (r : TypeRef) :
    Query.Ensures s.Questioned (resolveRef r) fun _ => True :=
  ensures_questioned (.resolve r) fun _ => rfl

end JavaModel.Session
