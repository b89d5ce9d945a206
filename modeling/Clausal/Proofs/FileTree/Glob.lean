import Mathlib.Data.List.TakeWhile
import Clausal.FileTree.Glob
import Clausal.Proofs.Text.Utf8

/-!
Paths that are found can be used. As long as no name in a tree holds the byte 0, which no file
system admits, every name is shown as a text that stands for bytes again, and so every path that
matches a pattern is a possible path of a file.
-/
namespace Clausal.FileTree

variable {t : FileTree} {path dir part name : Text} {c : CodePoint}

/-- No name holds the byte 0. -/
def IsSound (t : FileTree) : Prop := ∀ node ∈ t.nodes, ∀ name ∈ node.1.names, 0 ∉ name

/-- A code point that may stand in a path. -/
def IsProper (c : CodePoint) : Prop := (Name.ofCodePoint? c).isSome = true ∧ c ≠ .char '\x00'

theorem impropriety?_eq_none : impropriety? path = none ↔ ∀ c ∈ path, IsProper c := by
  rw [impropriety?]
  cases bytes : Text.findUnencodable? (fun c => (Name.ofCodePoint? c).isSome) 0 path with
  | some e =>
      refine iff_of_false nofun fun proper => ?_
      rw [Text.findUnencodable?_eq_none.2 fun c hc => (proper c hc).1] at bytes
      cases bytes
  | none =>
      have encodable := Text.findUnencodable?_eq_none.1 bytes
      dsimp only
      split
      · rename_i zero
        refine iff_of_false nofun fun proper => ?_
        exact (proper _ (List.contains_iff_mem.1 zero)).2 rfl
      · rename_i nonzero
        refine iff_of_true rfl fun c hc => ⟨encodable c hc, ?_⟩
        rintro rfl
        exact nonzero (List.contains_iff_mem.2 hc)

theorem isProper_slash : IsProper (.char '/') := ⟨rfl, by decide⟩

theorem isProper_of_joinPath (directory : ∀ c ∈ dir, IsProper c) (below : ∀ c ∈ path, IsProper c) :
    ∀ c ∈ joinPath dir path, IsProper c := by
  rw [joinPath]
  split
  · exact below
  · split
    · exact List.forall_mem_append.2 ⟨directory, below⟩
    · exact List.forall_mem_append.2
        ⟨directory, List.forall_mem_cons.2 ⟨isProper_slash, below⟩⟩

theorem isProper_of_isNameable (h : Text.IsNameable c) : IsProper c := by
  obtain ⟨d, nonzero, rfl⟩ := h
  refine ⟨rfl, fun zero => nonzero ?_⟩
  cases zero
  rfl

/-- Every byte that stands alone is from 0x80 on, and has a surrogate of its own. -/
theorem isProper_ofNat {b : UInt8} {rest : List UInt8} (h : Name.firstChar? (b :: rest) = none) :
    IsProper (.ofNat (0xDC00 + b.toNat)) := by
  have high : 0x80 ≤ b.toNat := by
    -- A smaller byte would be read as a character by itself.
    by_contra ascii
    rw [Name.firstChar?, List.findSome?_cons, List.take_succ_cons, List.take_zero,
      Text.decodeUtf8, Text.decodeUtf8From, if_pos (Nat.lt_of_not_le ascii),
      Text.decodeUtf8From] at h
    cases h
  have small := b.toNat_lt
  have range : 0xD800 ≤ 0xDC00 + b.toNat ∧ 0xDC00 + b.toNat < 0xE000 := by omega
  rw [CodePoint.ofNat, dif_pos range]
  constructor
  · rw [Name.ofCodePoint?, if_pos ⟨by dsimp only; omega, by dsimp only; omega⟩]
    rfl
  · rintro ⟨⟩

theorem isProper_of_firstChar? {bytes : List UInt8} {size : Nat} (nonzero : 0 ∉ bytes)
    (h : Name.firstChar? bytes = some (c, size)) : IsProper c := by
  obtain ⟨k, _, found⟩ := List.exists_of_findSome?_eq_some h
  split at found
  · rename_i d decoded
    have front : 0 ∉ bytes.take k := fun zero => nonzero (List.mem_of_mem_take zero)
    cases found
    exact isProper_of_isNameable
      (Text.isNameable_of_decodeUtf8 front decoded _ List.mem_cons_self)
  · cases found

theorem isProper_of_mem_toText {bytes : Name} (nonzero : 0 ∉ bytes) :
    ∀ c ∈ Name.toText bytes, IsProper c := by
  induction bytes using Name.toText.induct with
  | case1 =>
      rw [Name.toText]
      exact List.forall_mem_nil _
  | case2 b rest c size first ih =>
      rw [Name.toText, first]
      have later : 0 ∉ rest.drop (size - 1) :=
        fun zero => nonzero (List.mem_cons_of_mem b (List.mem_of_mem_drop zero))
      exact List.forall_mem_cons.2 ⟨isProper_of_firstChar? nonzero first, ih later⟩
  | case3 b rest alone ih =>
      rw [Name.toText, alone]
      have later : 0 ∉ rest := fun zero => nonzero (List.mem_cons_of_mem b zero)
      exact List.forall_mem_cons.2 ⟨isProper_ofNat alone, ih later⟩

theorem isProper_of_resolve {node : FileNode} (h : t.resolve path = .ok node) :
    ∀ c ∈ path, IsProper c := by
  refine impropriety?_eq_none.1 ?_
  rw [resolve] at h
  split at h
  · cases h
  · rename_i proper
    exact proper

theorem isProper_of_pathExists (h : t.pathExists path = true) : ∀ c ∈ path, IsProper c := by
  rw [pathExists] at h
  cases led : t.resolve path with
  | error e =>
      rw [led] at h
      cases h
  | ok node => exact isProper_of_resolve led

theorem isProper_of_isDirectory (h : t.isDirectory path = true) : ∀ c ∈ path, IsProper c := by
  rw [isDirectory] at h
  cases led : t.resolve path with
  | error e =>
      rw [led] at h
      cases h
  | ok node => exact isProper_of_resolve led

/-- A directory that anything is listed in and the names in it. -/
theorem isProper_of_list (sound : t.IsSound) {entries : List (Text × Bool)} {kind : Bool}
    (h : t.list path = .ok entries) (hentry : (name, kind) ∈ entries) :
    (∀ c ∈ path, IsProper c) ∧ ∀ c ∈ name, IsProper c := by
  rw [list] at h
  split at h
  · rename_i led
    cases h
    refine ⟨isProper_of_resolve led, ?_⟩
    obtain ⟨bytes, hbytes, same⟩ := List.mem_map.1 hentry
    cases same
    obtain ⟨node, hnode, within⟩ := List.mem_filterMap.1 (List.mem_eraseDups.1 hbytes)
    refine isProper_of_mem_toText (sound node hnode bytes ?_)
    rw [Place.nameIn?] at within
    split at within
    · rename_i first rest names
      split at within
      · cases within
        rw [names]
        exact List.mem_cons_self
      · cases within
    · cases within
  · cases h
    cases hentry
  · split at h
    · cases h
    · cases h
      cases hentry

theorem isProper_of_matchNames (sound : t.IsSound) {directoriesOnly : Bool} {names : List Text}
    (h : t.matchNames dir part directoriesOnly = .ok names) (hname : name ∈ names) :
    (∀ c ∈ dir, IsProper c) ∧ ∀ c ∈ name, IsProper c := by
  rw [matchNames] at h
  split at h
  · cases h
  · rename_i entries listed
    cases h
    obtain ⟨⟨_, kind⟩, hentry, rfl⟩ := List.mem_map.1 hname
    obtain ⟨within, shown⟩ := isProper_of_list sound listed (List.mem_filter.1 hentry).1
    refine ⟨?_, shown⟩
    cases dir with
    | nil => exact List.forall_mem_nil _
    | cons c rest => exact within

theorem isProper_of_matchPart (sound : t.IsSound) {directoriesOnly : Bool} {paths : List Text}
    (h : t.matchPart part directoriesOnly dir = .ok paths) (hpath : path ∈ paths) :
    ∀ c ∈ path, IsProper c := by
  rw [matchPart] at h
  split at h
  · cases found : t.matchNames dir part directoriesOnly with
    | error e =>
        rw [found] at h
        cases h
    | ok names =>
        rw [found] at h
        cases h
        obtain ⟨name, hname, rfl⟩ := List.mem_map.1 hpath
        obtain ⟨within, shown⟩ := isProper_of_matchNames sound found hname
        exact isProper_of_joinPath within shown
  · cases h
    obtain ⟨last, hlast, rfl⟩ := List.mem_map.1 hpath
    rw [matchLiteral] at hlast
    split at hlast
    · rename_i empty
      split at hlast
      · rename_i found
        cases List.mem_singleton.1 hlast
        rw [List.isEmpty_iff.1 empty]
        exact isProper_of_joinPath (isProper_of_isDirectory found)
          (List.forall_mem_nil _)
      · cases hlast
    · split at hlast
      · rename_i found
        cases List.mem_singleton.1 hlast
        exact isProper_of_pathExists found
      · cases hlast

/-- A path without a last name is its directory with slashes behind it. -/
theorem isProper_of_splitPath (empty : (splitPath path).2 = [])
    (h : ∀ c ∈ (splitPath path).1, IsProper c) : ∀ c ∈ path, IsProper c := by
  rw [splitPath] at empty h
  dsimp only at empty h
  rw [empty, List.length_nil, Nat.sub_zero, List.take_length] at h
  split at h
  · exact h
  · intro c hc
    have cut : c ∈ path.reverse.takeWhile (· == .char '/') ++
        path.reverse.dropWhile (· == .char '/') := by
      rw [List.takeWhile_append_dropWhile]
      exact List.mem_reverse.2 hc
    rcases List.mem_append.1 cut with slash | kept
    · have same := List.mem_takeWhile_imp slash
      exact beq_iff_eq.1 same ▸ isProper_slash
    · exact h c (List.mem_reverse.2 kept)

theorem exists_of_mem_mapM {α β ε : Type} {f : α → Except ε β} {xs : List α} {ys : List β} {y : β}
    (h : xs.mapM f = .ok ys) (hy : y ∈ ys) : ∃ x ∈ xs, f x = .ok y := by
  induction xs generalizing ys with
  | nil =>
      cases h
      cases hy
  | cons x xs ih =>
      rw [List.mapM_cons] at h
      cases first : f x with
      | error e =>
          rw [first] at h
          cases h
      | ok z =>
          cases rest : xs.mapM f with
          | error e =>
              rw [first, rest] at h
              cases h
          | ok zs =>
              rw [first, rest] at h
              cases h
              cases hy with
              | head => exact ⟨x, List.mem_cons_self, first⟩
              | tail _ hy =>
                  obtain ⟨w, hw, same⟩ := ih rest hy
                  exact ⟨w, List.mem_cons_of_mem x hw, same⟩

/-- Every path that matches a pattern is a possible path of a file. -/
theorem isProper_of_glob (sound : t.IsSound) {pattern : Text} {directoriesOnly : Bool}
    {paths : List Text} (h : t.glob pattern directoriesOnly = .ok paths) (hpath : path ∈ paths) :
    ∀ c ∈ path, IsProper c := by
  rw [glob] at h
  dsimp only at h
  split at h
  · cases h
    split at hpath
    · rename_i empty
      split at hpath
      · rename_i found
        cases List.mem_singleton.1 hpath
        exact isProper_of_splitPath (List.isEmpty_iff.1 empty) (isProper_of_isDirectory found)
      · cases hpath
    · split at hpath
      · rename_i found
        cases List.mem_singleton.1 hpath
        exact isProper_of_pathExists found
      · cases hpath
  · split at h
    · exact (isProper_of_matchNames sound h hpath).2
    · split at h
      · cases h
      · rename_i dirs found
        cases each : dirs.mapM (t.matchPart (splitPath pattern).2 directoriesOnly) with
        | error e =>
            rw [each] at h
            cases h
        | ok matched =>
            rw [each] at h
            cases h
            obtain ⟨some_, hsome, within⟩ := List.mem_flatten.1 hpath
            obtain ⟨dir, _, same⟩ := exists_of_mem_mapM each hsome
            exact isProper_of_matchPart sound same within

end Clausal.FileTree
