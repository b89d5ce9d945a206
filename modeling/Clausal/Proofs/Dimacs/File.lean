import Clausal.Dimacs.File

/-!
What can go wrong with a file. Loading asks the file tree for nothing but what its path leads to,
and of its failures only two kinds are not reported with the file: the path may be that of no file
at all, and a compressed stream may break off or have no meaning.
-/
namespace Clausal

namespace FileTree

variable {t : FileTree} {path : Text} {e : PathError}

theorem isImproper_of_walk {p : Place} {node : FileNode} {names : List Name}
    (h : t.walk path p node names = .error e) : e.isImproper = false := by
  induction names generalizing p node with
  | nil => cases h
  | cons name rest ih =>
      cases node with
      | file content compressed =>
          cases h
          rfl
      | directory =>
          rw [walk] at h
          split at h
          · cases h
            rfl
          · split at h
            · cases h
              rfl
            · exact ih h

/-- A path that may be the path of a file fails for a reason that lies with the files. -/
theorem isImproper_of_resolve (proper : impropriety? path = none)
    (h : t.resolve path = .error e) : e.isImproper = false := by
  rw [resolve, proper] at h
  dsimp only at h
  split at h
  · cases h
    rfl
  · split at h
    · cases h
      rfl
    · exact isImproper_of_walk h

end FileTree

namespace Dimacs

variable {files others : FileTree} {path : Text} {e : LoadError}

/-- What keeps the file under the path from being unpacked, if its name asks for that, is reported:
no compressed stream breaks off or has no meaning. -/
def IsIntact (files : FileTree) (path : Text) : Prop :=
  ∀ content compressed e, files.resolve path = .ok (.file content compressed) →
    textBytes path content compressed = .error e → e.isReported = true

/-- Only a name that promises a compressed file asks for unpacking. -/
theorem isIntact_of_name (plain : isCompressedName path = false) : IsIntact files path := by
  intro content compressed e _ damaged
  rw [textBytes, plain] at damaged
  cases damaged

theorem load_congr (same : files.resolve path = others.resolve path) :
    load files path = load others path := by
  rw [load, load, readText, readText, same]

theorem isReported_of_load (intact : IsIntact files path)
    (proper : ∀ e, files.resolve path = .error e → e.isImproper = false)
    (h : load files path = .error e) : e.isReported = true := by
  rw [load] at h
  split at h
  · rename_i unread
    cases h
    rw [readText] at unread
    split at unread
    · rename_i reason missing
      cases unread
      rw [LoadError.isReported, proper reason missing]
      rfl
    · cases unread
      rfl
    · rename_i content compressed file
      split at unread
      · rename_i damaged
        cases unread
        exact intact content compressed e file damaged
      · split at unread
        · cases unread
          rfl
        · cases unread
  · rename_i text _
    cases parsed : parse text with
    | error reason =>
        rw [parsed] at h
        cases h
        rfl
    | ok f =>
        rw [parsed] at h
        cases h

end Dimacs

end Clausal
