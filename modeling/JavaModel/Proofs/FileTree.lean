import JavaModel.FileTree

/-! Where paths lead. A path that leads anywhere leads to where its components do, and what is read
there is the text of the file. -/

namespace JavaModel

namespace FileTree

variable {t : FileTree} {p q : FilePath} {place : Place}

/-- A path below the root leads to where its components do. -/
theorem locate_eq_follow (hnul : '\x00' ∉ p.text.toList) (hlength : ¬ isTooLong p)
    (hbelow : t.root.components.isPrefixOf p.components) (hends : ¬ endsAsDirectory p) :
    t.locate p = t.follow [] (p.components.drop t.root.components.length) := by
  unfold locate
  cases hleads : t.follow [] (p.components.drop t.root.components.length) with
  | error fault => simp [hnul, hlength, hbelow, hleads, bind, Except.bind]
  | ok target =>
    cases target <;> simp [hnul, hlength, hbelow, hends, hleads, bind, Except.bind]

theorem read_below (hlocate : t.locate p = .ok (.below place)) {text : String}
    (htext : (t.bytes? place).bind String.fromUTF8? = some text) : t.read p = .ok text := by
  obtain ⟨bytes, hbytes, htext⟩ := Option.bind_eq_some_iff.mp htext
  rw [read, hlocate]
  simp [hbytes, htext, bind, Except.bind]

/-- What a path leads to is known from its components. -/
theorem follow_of_locate {target : Target} (h : t.locate p = .ok target) :
    (if t.root.components.isPrefixOf p.components then
        t.follow [] (p.components.drop t.root.components.length)
      else followAbove p.components) = .ok target := by
  unfold locate at h
  simp only [bind, Except.bind] at h
  grind

/-- Paths with the same components lead to the same place if they lead anywhere. -/
theorem locate_congr (hsame : q.components = p.components) {a b : Target}
    (hp : t.locate p = .ok a) (hq : t.locate q = .ok b) : t.locate q = t.locate p := by
  have hfirst := follow_of_locate hq
  rw [hsame, follow_of_locate hp] at hfirst
  rw [hq, hp, hfirst]

theorem hasFile_iff : t.hasFile p ↔ ∃ place, t.locate p = .ok (.below place) ∧ t.isFile place := by
  unfold hasFile
  split
  · simp_all
  · simp_all

/-- What can be read is the text of a file. -/
theorem exists_bytes_of_read {text : String} (h : t.read p = .ok text) :
    ∃ place bytes, t.locate p = .ok (.below place) ∧ t.bytes? place = some bytes ∧
      String.fromUTF8? bytes = some text := by
  unfold read at h
  cases hleads : t.locate p with
  | error fault =>
    rw [hleads] at h
    cases h
  | ok target =>
    rw [hleads] at h
    cases target with
    | above => cases h
    | below place =>
      cases hbytes : t.bytes? place with
      | none => simp [bind, Except.bind, hbytes] at h
      | some bytes =>
        cases htext : String.fromUTF8? bytes with
        | none => simp [bind, Except.bind, hbytes, htext] at h
        | some other =>
          obtain rfl : other = text := by simpa [bind, Except.bind, hbytes, htext] using h
          exact ⟨place, bytes, rfl, hbytes, htext⟩

theorem hasFile_of_read {text : String} (h : t.read p = .ok text) : t.hasFile p := by
  obtain ⟨place, bytes, hlocate, hbytes, _⟩ := exists_bytes_of_read h
  exact hasFile_iff.mpr ⟨place, hlocate, by rw [isFile, hbytes]; rfl⟩

theorem read_congr (h : t.locate q = t.locate p) : t.read q = t.read p := by
  unfold read
  rw [h]

/-- Where there is one file, whatever can be read is at its place. -/
theorem locate_of_sole (hfiles : t.files.map Prod.fst = [place]) {text : String}
    (h : t.read p = .ok text) : t.locate p = .ok (.below place) := by
  obtain ⟨found, hlocate, hfile⟩ := hasFile_iff.mp (hasFile_of_read h)
  rw [isFile, bytes?, Option.isSome_map, List.find?_isSome] at hfile
  obtain ⟨f, hf, heq⟩ := hfile
  have hplace : f.1 ∈ t.files.map Prod.fst := List.mem_map_of_mem hf
  rw [hfiles, List.mem_singleton, of_decide_eq_true heq] at hplace
  rw [hlocate, hplace]

end FileTree

end JavaModel
