import JavaModel.Proofs.Session.Ascent
import JavaModel.Proofs.Session.Naming
import JavaModel.Proofs.Session.Unresolved

/-! Walks with and without a stub at the end of the chain where no strategy reads source files. A
name that the stub answers is then one that no class is ever found under, so that no stub masks a
class: the walks go on side by side, and one ends if the other does. -/

namespace JavaModel.Session

variable {hidden : String → Prop} {I J : Session → Prop} {s t s' t' : Session} {a b : Answer}
  {seen seen' stubs : List String} {as bs found found' : List Answer} {c : Class}

/-- The two walks are side by side, and whatever names the second has seen besides are hidden. -/
structure Abreast (hidden : String → Prop) (I J : Session → Prop) (seen : List String)
    (as : List Answer) (s : Session) (seen' : List String) (bs : List Answer) (t : Session) :
    Prop where
  queue : StubsAmong as bs
  seen : ∃ stubs, SeenBeside stubs seen seen' ∧ ∀ n ∈ stubs, hidden n
  beside : s.Beside t
  first : I s
  second : J t

section Hidden

variable
  (hfirst : ∀ c, Query.Ensures I (directSupertypes c) fun as => ∀ a ∈ as, ¬ hidden a.found.fullName)
  (hsecond : ∀ c, Query.Ensures J (directSupertypes c) fun bs =>
    ∀ b ∈ bs, b.found.isStub → hidden b.found.fullName)

include hfirst hsecond

/-- What is new above a class goes to the ends of both queues. -/
theorem Abreast.above (h : Abreast hidden I J seen as s seen' bs t) (c : Class) :
    Abreast hidden I J (enqueue seen (directSupertypes c s).1).2
      (as ++ (enqueue seen (directSupertypes c s).1).1) (directSupertypes c s).2
      (enqueue seen' (directSupertypes c t).1).2
      (bs ++ (enqueue seen' (directSupertypes c t).1).1) (directSupertypes c t).2 := by
  obtain ⟨hqueue, ⟨stubs, hseen, hhidden⟩, hst, hs, ht⟩ := h
  obtain ⟨habove, hst⟩ := relates_directSupertypes c s t hst
  obtain ⟨hs, hclasses⟩ := hfirst c s hs
  obtain ⟨ht, hstubs⟩ := hsecond c t ht
  have hnew : ∀ n ∈ stubs ++ stubNames (enqueue seen' (directSupertypes c t).1).1, hidden n := by
    refine List.forall_mem_append.mpr ⟨hhidden, fun n hn => ?_⟩
    obtain ⟨b, hb, hstub, rfl⟩ := mem_stubNames.mp hn
    exact hstubs b (mem_of_mem_enqueue hb) hstub
  obtain ⟨hfound, hseen⟩ := foundBeside_enqueue habove stubs hseen fun n hn hmem => by
    obtain ⟨a, ha, rfl⟩ := List.mem_map.mp hn
    exact hclasses a (mem_of_mem_enqueue ha) (hnew _ hmem)
  exact ⟨hqueue.append hfound, ⟨_, hseen, hnew⟩, hst, hs, ht⟩

/-- If the second walk ends, then the first does, with the same classes but for stubs. -/
theorem Abreast.first_ends (h' : Walks seen' bs t found' t')
    (h : Abreast hidden I J seen as s seen' bs t) :
    ∃ found s', Walks seen as s found s' ∧ StubsAmong found found' := by
  induction h' generalizing seen as s with
  | done =>
    obtain rfl := h.queue.eq_nil
    exact ⟨[], s, .done, .nil⟩
  | @next seen' b bs found' t t' _ ih =>
    obtain ⟨hb, hbs⟩ | ⟨hb, as, rfl, hbs⟩ := h.queue.cons_cases
    · rw [directSupertypes_stub hb, enqueue, List.append_nil] at ih
      obtain ⟨found, s', hwalks, hfound⟩ := ih ⟨hbs, h.seen, h.beside, h.first, h.second⟩
      exact ⟨found, s', hwalks, (StubsAmong.single hb).append hfound⟩
    · obtain ⟨found, s', hwalks, hfound⟩ := ih (Abreast.above hfirst hsecond
        ⟨hbs, h.seen, h.beside, h.first, h.second⟩ b.found)
      have hself : StubsAmong [b] [b] := .refl (by simpa using hb)
      exact ⟨b :: found, s', .next hwalks, hself.append hfound⟩

/-- If the first walk ends, then the second does. -/
theorem Abreast.second_ends (h' : Walks seen as s found s')
    (h : Abreast hidden I J seen as s seen' bs t) : ∃ found' t', Walks seen' bs t found' t' := by
  induction h' generalizing seen' bs t with
  | done =>
    have hqueue := h.queue
    clear h
    induction bs with
    | nil => exact ⟨[], t, .done⟩
    | cons b bs ih =>
      obtain ⟨hb, hbs⟩ | ⟨_, _, hnil, _⟩ := hqueue.cons_cases
      · obtain ⟨found', t', hwalks⟩ := ih hbs
        exact ⟨b :: found', t', hwalks.cons_stub hb⟩
      · cases hnil
  | @next seen a as found s s' _ ih =>
    -- The second walk goes through stubs until it comes to the same class.
    induction bs with
    | nil => cases h.queue.eq_nil
    | cons b bs ihbs =>
      obtain ⟨hb, hbs⟩ | ⟨_, _, heq, hbs⟩ := h.queue.cons_cases
      · obtain ⟨found', t', hwalks⟩ := ihbs ⟨hbs, h.seen, h.beside, h.first, h.second⟩
        exact ⟨b :: found', t', hwalks.cons_stub hb⟩
      · obtain ⟨rfl, rfl⟩ := List.cons.inj heq
        obtain ⟨found', t', hwalks⟩ := ih (Abreast.above hfirst hsecond
          ⟨hbs, h.seen, h.beside, h.first, h.second⟩ a.found)
        exact ⟨a :: found', t', .next hwalks⟩

theorem walksApart_of_hidden (hst : s.Beside t) (hs : I s) (ht : J t) (c : Class) :
    WalksApart c s t := by
  have hstart : Abreast hidden I J [c.fullName] [] s [c.fullName] [] t :=
    ⟨.nil, ⟨[], by simp [SeenBeside], by simp⟩, hst, hs, ht⟩
  have habreast := hstart.above hfirst hsecond c
  refine (hst.ancestors_iff c).mp ?_
  cases hends : (ancestors c t).1 with
  | some bs =>
    obtain ⟨as, s', hwalks, hfound⟩ := habreast.first_ends hfirst hsecond
      (walksAbove_of_ancestors hends)
    have hsame : ancestors c s = (some as, s') := WalksAbove.ancestors hwalks
    rw [hsame, Option.map_some, hfound.rest]
  | none =>
    cases hends' : (ancestors c s).1 with
    | none => rfl
    | some as =>
      obtain ⟨bs, t', hwalks⟩ := habreast.second_ends hfirst hsecond
        (walksAbove_of_ancestors hends')
      rw [show ancestors c t = (some bs, t') from WalksAbove.ancestors hwalks] at hends
      cases hends

end Hidden

/-! ### Without source roots -/

/-- Nothing is found under the name. -/
def Lacks (s : Session) (name : String) : Prop := (classNamed name s).1 = none

/-- The session is beside one where nothing has changed since `s`. -/
structure BesideFixed (s t : Session) : Prop where
  sound : t.Sound
  beside : ∃ u, u.Beside t ∧ s.Fixed u

section Fixed

variable (hs : s.Fixed s) (hfilled : s.sources.IsFilled)

include hs hfilled

/-- As long as nothing changes, no class goes by a name under which nothing is found. -/
theorem ensures_found (name : String) :
    Query.Ensures s.Fixed (classNamed name) fun answer =>
      ∀ a ∈ answer, ¬ s.Lacks a.found.fullName := by
  intro u hu
  refine ⟨(hu.find false name).2, fun a ha hlacks => ?_⟩
  have hname : a.found.fullName = name :=
    fullName_of_consult hu.sound.entries (hu.sources ▸ hfilled) ha
  have hsame : (classNamed name u).1 = (classNamed name s).1 := hu.same_answer hs false name
  rw [hname] at hlacks
  rw [hsame, hlacks] at ha
  cases ha

/-- Beside a session where nothing changes, a stub goes by a name under which nothing is found. -/
theorem ensures_stub_lacking (name : String) : Query.Ensures s.BesideFixed (classNamed name)
    fun answer => ∀ b ∈ answer, b.found.isStub → s.Lacks b.found.fullName := by
  rintro t ⟨ht, u, hut, hu⟩
  obtain ⟨hanswers, hbeside⟩ := relates_classNamed name u t hut
  refine ⟨⟨(keeps_classNamed name t ht).1, _, hbeside, (hu.find false name).2⟩,
    fun b hb hstub => ?_⟩
  have hname : b.found.fullName = name := fullName_of_consult ht.entries
    (hut.added.sources ▸ hu.sources ▸ hfilled) hb
  have hnone : (classNamed name u).1 = none := by
    have hrest := hanswers.rest
    rw [Option.mem_def.mp hb] at hrest
    simpa [withoutStubs, hstub] using hrest.symm
  have hsame : (classNamed name u).1 = (classNamed name s).1 := hu.same_answer hs false name
  rw [hname]
  exact hsame.symm.trans hnone

omit hfilled in
theorem ensures_besideFixed_resolveRef (r : TypeRef) :
    Query.Ensures s.BesideFixed (resolveRef r) fun _ => True := by
  rintro t ⟨ht, u, hut, hu⟩
  exact ⟨⟨(keeps_resolveRef r t ht).1, _, (relates_resolveRef r u t hut).2,
    (hs.resolves hu r).fixed⟩, trivial⟩

end Fixed

/-- Where no strategy reads source files, no stub masks a class. -/
theorem Beside.walksApart (h : s.Beside t) (ht : t.Sound) (hroots : s.Rootless)
    (hfilled : s.sources.IsFilled) (c : Class) : WalksApart c s t := by
  have hs : s.Fixed s := h.sound.fixed hroots
  have hfirst (c : Class) : Query.Ensures s.Fixed (directSupertypes c) fun as =>
      ∀ a ∈ as, ¬ s.Lacks a.found.fullName :=
    ensures_directSupertypes (ensures_found hs hfilled) fun r _ _ hu =>
      ⟨(hs.resolves hu r).fixed, trivial⟩
  have hsecond (c : Class) : Query.Ensures s.BesideFixed (directSupertypes c) fun bs =>
      ∀ b ∈ bs, b.found.isStub → s.Lacks b.found.fullName :=
    ensures_directSupertypes (ensures_stub_lacking hs hfilled) fun r _ =>
      ensures_besideFixed_resolveRef hs r
  exact walksApart_of_hidden hfirst hsecond h hs ⟨ht, s, h, hs⟩ c

end JavaModel.Session
