import Clausal.Proofs.Dimacs.File
import Clausal.Proofs.Text.Line
import Clausal.Proofs.Text.Utf8

/-!
Loading what has been stored. The bytes of a text are read back as the text, but for its carriage
returns. The parser sees only the lines of a text, so nothing is lost on the way through a file.
-/
namespace Clausal.Dimacs

variable {files : FileTree} {path : Text} {bytes : List UInt8}

theorem scan_normalizeNewlines (text : Text) : scan (Text.normalizeNewlines text) = scan text := by
  rw [scan, scan, Text.lines_normalizeNewlines]

/-- The path leads to a file with these bytes in it, compressed if the name of the file says so. The
content of a compressed file may be known or has to be unpacked. -/
inductive Stores (files : FileTree) (path : Text) (bytes : List UInt8) : Prop where
  | plain (name : isCompressedName path = false)
      (file : files.resolve path = .ok (.file bytes false))
  | compressed (name : isCompressedName path = true)
      (file : files.resolve path = .ok (.file bytes true))
  | packed {raw : List UInt8} (name : isCompressedName path = true)
      (file : files.resolve path = .ok (.file raw false)) (content : Gzip.unpack raw = .ok bytes)

theorem Stores.exists_textBytes (stored : Stores files path bytes) :
    ∃ content compressed, files.resolve path = .ok (.file content compressed) ∧
      textBytes path content compressed = .ok bytes := by
  cases stored with
  | plain name file =>
      refine ⟨bytes, false, file, ?_⟩
      simp [textBytes, name]
  | compressed name file =>
      refine ⟨bytes, true, file, ?_⟩
      simp [textBytes, name]
  | @packed raw name file content =>
      refine ⟨raw, false, file, ?_⟩
      simp [textBytes, name, content, Except.mapError]

theorem readText_of_stores {text : String} (stored : Stores files path text.toUTF8.data.toList) :
    readText files path = .ok (Text.normalizeNewlines text) := by
  obtain ⟨content, compressed, file, read⟩ := stored.exists_textBytes
  have decoded := Text.decodeUtf8_of_encodeUtf8 (Text.encodeUtf8_ofString text)
  simp only [readText, file, read, decoded]

/-- A stored text is loaded just as it is parsed: as the same formula or with the same error, about
which nothing else is said, and a talkative run reports the same. -/
theorem load_of_stores {text : String} (stored : Stores files path text.toUTF8.data.toList) :
    load files path = (parse text).mapError .malformed ∧ loadLog files path = parseLog text ∧
      ∀ e, parse text = .error e → (LoadError.malformed e).message = e.message := by
  refine ⟨?_, ?_, fun _ _ => rfl⟩
  · simp only [load, readText_of_stores stored, parse, scan_normalizeNewlines]
  · simp only [loadLog, readText_of_stores stored, parseLog, scan_normalizeNewlines]

/-- A carriage return alone, one with a line feed, and a wrong literal on the third line: of the file
and of the compressed file, just as of the text. -/
theorem load_mixed_ends :
    let text := "\r\r\né"
    let bytes : List UInt8 := [13, 13, 10, 0xC3, 0xA9]
    let raw := [31, 139, 8, 0, 0, 0, 0, 0, 4, 3, 1, 5, 0, 250, 255] ++ bytes ++
      [102, 241, 146, 142, 5, 0, 0, 0]
    let files :=
      (FileTree.create {} "t.cnf" (.file bytes false)).create "t.cnf.gz" (.file raw false)
    parse text = .error (.invalidLiteral 3 "é") ∧
      load files "t.cnf" = .error (.malformed (.invalidLiteral 3 "é")) ∧
      load files "t.cnf.gz" = .error (.malformed (.invalidLiteral 3 "é")) := by
  intro text bytes raw files
  have utf8 : text.toUTF8.data.toList = bytes := by decide
  have parsed : parse text = .error (.invalidLiteral 3 "é") := by
    unfold text
    rfl
  have content : Gzip.unpack raw = .ok bytes := by
    have unpacked : (Gzip.unpack raw).toOption = some bytes := by decide +kernel
    cases read : Gzip.unpack raw with
    | error e =>
        rw [read] at unpacked
        cases unpacked
    | ok content =>
        rw [read] at unpacked
        rw [Option.some.inj unpacked]
  have plain : Stores files "t.cnf" text.toUTF8.data.toList := .plain rfl (utf8 ▸ rfl)
  have packed : Stores files "t.cnf.gz" text.toUTF8.data.toList := .packed rfl rfl (utf8 ▸ content)
  rw [(load_of_stores plain).1, (load_of_stores packed).1, parsed]
  exact ⟨rfl, rfl, rfl⟩

end Clausal.Dimacs
