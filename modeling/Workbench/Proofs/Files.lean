import Workbench.Proofs.Json.Numerals
import Workbench.Store

/-!
# What is written can be read

A program that reads a file and writes one can do without knowing what files
are. It counts on two things (`Storage.Lawful`): what a write has left is read
back, and a write that fails leaves everything as it was.

A directory keeps to both. The second holds by definition. For the first, a
write puts a file where there was a file or nothing. So every directory stays
one, a path leads after the write where it led before
(`follow_of_directories`), and what it finds there is what has been written.
-/

namespace Workbench

/-- What may be counted on when a file is written. -/
structure Storage.Lawful {σ : Type} (storage : Storage σ) : Prop where
  read_of_write : ∀ {files after path text},
    storage.write files path text = (.ok (), after) →
      storage.read after path = .ok text
  eq_of_failure : ∀ {files after path text error},
    storage.write files path text = (.error error, after) → after = files

namespace Files

variable {files after : Files} {path text : String} {names before : List String}

/-- The files with a file at the names. -/
def put (files : Files) (names : List String) (content : ByteArray) : Files :=
  ⟨(names, .file content) :: files.entries.filter (·.1 ≠ names)⟩

theorem write_eq_ok_iff :
    files.write path text = .ok after ↔
      ∃ names, files.resolve path = .ok names ∧
        ¬ (files.isDirectory names = true ∨ path.endsWith "/" = true) ∧
        after = files.put names text.toUTF8 := by
  unfold write
  rw [bind_eq_ok_iff]
  refine exists_congr fun names => and_congr_right fun _ => ?_
  split
  · next hrefused => exact iff_of_false nofun fun h => h.1 hrefused
  · next haccepted =>
      refine ⟨fun h => ⟨haccepted, (Except.ok.inj h).symm⟩, fun h => ?_⟩
      exact congrArg Except.ok h.2.symm

theorem find?_put_self (content : ByteArray) :
    (files.put names content).find? names = some (.file content) := by
  rw [find?, put, List.lookup_cons_self]

theorem lookup_filter_ne {entries : List (List String × FileEntry)}
    (hne : before ≠ names) :
    (entries.filter (·.1 ≠ names)).lookup before = entries.lookup before := by
  induction entries with
  | nil => rfl
  | cons entry rest ih =>
      obtain ⟨key, value⟩ := entry
      by_cases hkey : key = names
      · have hbefore : (before == key) = false := by
          rw [beq_eq_false_iff_ne, hkey]
          exact hne
        rw [List.filter_cons_of_neg (by simpa using hkey),
          List.lookup_cons, hbefore]
        exact ih
      · rw [List.filter_cons_of_pos (by simpa using hkey), List.lookup_cons,
          List.lookup_cons, ih]

/-- A directory stays one, unless the file is put in its own place. -/
theorem find?_put_of_directory {content : ByteArray} (hne : before ≠ names)
    (hdirectory : files.find? before = some .directory) :
    (files.put names content).find? before = some .directory := by
  have hbefore : (before == names) = false := beq_eq_false_iff_ne.2 hne
  unfold find? at hdirectory ⊢
  rw [put, List.lookup_cons, hbefore, lookup_filter_ne hne]
  cases hlookup : files.entries.lookup before with
  | some entry =>
      rw [hlookup] at hdirectory
      exact hdirectory
  | none =>
      rw [hlookup] at hdirectory
      dsimp only at hdirectory ⊢
      split at hdirectory
      · next habove =>
          refine if_pos (habove.imp_right fun h => ?_)
          obtain ⟨entry, hentry, hprefix⟩ := List.any_eq_true.1 h
          rw [List.any_cons, Bool.or_eq_true]
          -- The entry below the directory is still there, or is the one that
          -- has been put.
          by_cases hkey : entry.1 = names
          · exact .inl (hkey ▸ hprefix)
          · have hkept : entry ∈ files.entries.filter (·.1 ≠ names) :=
              List.mem_filter.2 ⟨hentry, by simpa using hkey⟩
            exact .inr (List.any_eq_true.2 ⟨entry, hkept, hprefix⟩)
      · cases hdirectory

/-- Following a path asks for directories only. -/
theorem follow_of_directories {rest : List String}
    (hsame : ∀ place, files.find? place = some .directory →
      after.find? place = some .directory)
    (h : files.follow before rest = .ok names) :
    after.follow before rest = .ok names := by
  induction rest generalizing before with
  | nil => exact h
  | cons name rest ih =>
      rw [follow] at h ⊢
      cases hfind : files.find? before with
      | none =>
          rw [hfind] at h
          cases h
      | some entry =>
          cases entry with
          | file content =>
              rw [hfind] at h
              cases h
          | directory =>
              rw [hfind] at h
              rw [hsame before hfind]
              dsimp only at h ⊢
              by_cases hdot : name = "."
              · rw [if_pos hdot] at h ⊢
                exact ih h
              rw [if_neg hdot] at h ⊢
              by_cases hup : name = ".."
              · rw [if_pos hup] at h ⊢
                exact ih h
              · rw [if_neg hup] at h ⊢
                exact ih h

theorem fromUTF8?_toUTF8 (text : String) :
    String.fromUTF8? text.toUTF8 = some text := by
  rw [String.toUTF8_eq_toByteArray, String.fromUTF8?, dif_pos text.isValidUTF8]
  rfl

theorem read_of_find? (hresolve : files.resolve path = .ok names)
    (hfind : files.find? names = some (.file text.toUTF8))
    (hpath : path.endsWith "/" = false) : files.read path = .ok text := by
  refine bind_eq_ok_iff.2 ⟨names, hresolve, ?_⟩
  rw [hfind, hpath]
  dsimp only
  rw [if_neg Bool.false_ne_true, fromUTF8?_toUTF8]

/-- A path that could be written to leads to what was written. -/
theorem read_of_write (h : files.write path text = .ok after) :
    after.read path = .ok text := by
  obtain ⟨names, hresolve, haccepted, rfl⟩ := write_eq_ok_iff.1 h
  rw [not_or, Bool.not_eq_true, Bool.not_eq_true] at haccepted
  have hsame : ∀ place, files.find? place = some .directory →
      (files.put names text.toUTF8).find? place = some .directory := by
    intro place hdirectory
    refine find?_put_of_directory (fun heq => ?_) hdirectory
    have hplace := haccepted.1
    rw [isDirectory, ← heq, hdirectory] at hplace
    cases hplace
  have hagain : (files.put names text.toUTF8).resolve path = .ok names := by
    unfold resolve at hresolve ⊢
    split at hresolve
    · cases hresolve
    · next hrelative =>
        rw [if_neg hrelative]
        exact follow_of_directories hsame hresolve
  exact read_of_find? hagain (find?_put_self _) haccepted.2

theorem storage_write_eq_iff {result : Except FileError Unit} :
    storage.write files path text = (result, after) ↔
      (files.write path text = .ok after ∧ result = .ok ()) ∨
        ∃ error, files.write path text = .error error ∧ result = .error error ∧
          after = files := by
  unfold storage
  dsimp only
  cases files.write path text with
  | ok written => simp [eq_comm, and_comm]
  | error error => simp [eq_comm]

theorem storage_lawful : storage.Lawful where
  read_of_write h := by
    rcases storage_write_eq_iff.1 h with ⟨hwrite, -⟩ | ⟨error, -, hresult, -⟩
    · exact read_of_write hwrite
    · cases hresult
  eq_of_failure h := by
    rcases storage_write_eq_iff.1 h with ⟨-, hresult⟩ | ⟨error, -, -, hafter⟩
    · cases hresult
    · exact hafter

end Files

end Workbench
