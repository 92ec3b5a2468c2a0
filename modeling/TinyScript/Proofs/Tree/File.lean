import TinyScript.Proofs.Scan.Newlines
import TinyScript.Proofs.Text.Encoding
import TinyScript.Proofs.Tree.Layout

/-!
# Texts in files

A text in a file is scanned and parsed with its line ends unified. That changes the payloads of string literals and nothing
else: the tokens are of the same kinds in the same order, the tree is the same in the spelling in which line ends are unified,
and a source that is not parsed from the one is not parsed from the other, for a failure of the same kind
(`parseFile_unified`).
-/

namespace TinyScript

/-- What a failure is, wherever it is: the kind and the code of a report, or the failure itself where it has none. -/
def Failure.verdict : Failure → (ErrorKind × String) ⊕ Failure
  | .lexical e => .inl (e.cause.kind, e.cause.code)
  | .grammatical e => .inl (e.kind, e.code)
  | f => .inr f

namespace Respelling

/-- The spelling without places, and with the line ends of string literals unified. -/
def lineFeeds : Respelling := { unplaced with string := Text.unified }

@[simp] theorem value_lineFeeds (v : TokenValue) : lineFeeds.value v = v.unified := by
  cases v <;> rfl

/-- Tokens with the unified values of others are the others in that spelling, places aside. -/
theorem map_lineFeeds_eq {tokens tokens' : List Token} (h : tokens'.map (·.value) = tokens.map (·.value.unified)) :
    tokens'.map unplaced.token = tokens.map lineFeeds.token := by
  have hplain : tokens'.map unplaced.token = (tokens'.map (·.value)).map fun v => ⟨v, 0⟩ := by
    simp [List.map_map, Function.comp_def]
  have hfeeds : tokens.map lineFeeds.token = (tokens.map (·.value.unified)).map fun v => ⟨v, 0⟩ := by
    rw [List.map_map]
    exact List.map_congr_left fun t _ => congrArg (Token.mk · 0) (value_lineFeeds t.value)
  rw [hplain, hfeeds, h]

/-- A respelled failure is of the same kind. -/
theorem verdict_failure (r : Respelling) (f : Failure) : (r.failure f).verdict = f.verdict := by
  cases f with
  | grammatical e =>
    obtain ⟨hkind, hcode, -, -⟩ := r.reported_error e
    simp only [failure, Failure.verdict, hkind, hcode]
  | lexical _ | refused _ | scannerUsed | sessionUsed | noToken _ | unreadable _ => rfl

theorem mapError_verdict {α : Type} (r : Respelling) (x : Except Failure α) :
    (x.mapError r.failure).mapError Failure.verdict = x.mapError Failure.verdict := by
  cases x with
  | ok a => rfl
  | error f => exact congrArg Except.error (r.verdict_failure f)

end Respelling

/-- Scans that stop for the same cause fail alike. -/
theorem verdict_ofScan {fault fault' : ScanFault} (h : fault'.cause = fault.cause) :
    (Failure.ofScan fault').verdict = (Failure.ofScan fault).verdict := by
  cases fault with
  | diagnosed e =>
    cases fault' with
    | diagnosed e' => simp only [Failure.ofScan, Failure.verdict, show e'.cause = e.cause from Sum.inl.inj h]
    | refused reason' => cases h
  | refused reason =>
    cases fault' with
    | diagnosed e' => cases h
    | refused reason' => exact congrArg (fun r => Sum.inr (Failure.refused r)) (Sum.inr.inj h)

/-- The unified text is parsed as the nodes of the text in the spelling with unified line ends, or fails alike. -/
theorem parseSource_unified (source filename filename' : String) :
    ((parseSource (Text.unified source) filename').map Node.erasedAll).mapError Failure.verdict =
      ((parseSource source filename).map Respelling.lineFeeds.nodes).mapError Failure.verdict := by
  have hlex := lex_unified source filename filename'
  rcases hscan : lex source filename with fault | tokens <;>
    rcases hscan' : lex (Text.unified source) filename' with fault' | tokens' <;> rw [hscan, hscan'] at hlex
  · have hcause : fault'.cause = fault.cause := Except.error.inj hlex
    rw [parseSource_of_error hscan, parseSource_of_error hscan']
    exact congrArg Except.error (verdict_ofScan hcause)
  · cases hlex
  · cases hlex
  · have hvalues : tokens'.map (·.value) = tokens.map (·.value.unified) := Except.ok.inj hlex
    have hsame := parseSource_unplaced (lexSource_of_ok hscan')
    rw [Respelling.map_lineFeeds_eq hvalues, ← parseSource_respelled (lexSource_of_ok hscan)] at hsame
    have hverdict := congrArg (Except.mapError Failure.verdict) hsame
    rwa [Respelling.mapError_verdict, Respelling.mapError_verdict] at hverdict

/-- A file that holds a text is scanned as the unified text. -/
theorem lexFile_of_text {look : String → Entry} {path source : String} (h : look path = .file source.toUTF8.data.toList) :
    lexFile look path = lexSource (Text.unified source) path := by
  have hread : readSource look path = .ok (Text.unified source) := by
    simp only [readSource, h, sourceText, Utf8.decode_toUTF8]
    rfl
  rw [lexFile, hread]
  rfl

/-- The unified text is scanned to the values of the text, those of string literals unified, or both scans stop for the same
cause, which the kind, the code and the message of a malformed literal are told by. So a file that holds the text is parsed as
the nodes of the text in the spelling with unified line ends, or both fail with the same kind and code. -/
theorem parseFile_unified :
    (∀ source filename filename' : String,
      ((lex (Text.unified source) filename').map (·.map (·.value))).mapError ScanFault.cause =
        ((lex source filename).map (·.map (·.value.unified))).mapError ScanFault.cause) ∧
    (∀ value : TokenValue, value.unified.kind = value.kind ∧ (value.kind ≠ .string → value.unified = value)) ∧
    ∀ (look : String → Entry) (path source filename : String), look path = .file source.toUTF8.data.toList →
      lexFile look path = lexSource (Text.unified source) path ∧
      ((parseFile look path).map Node.erasedAll).mapError Failure.verdict =
        ((parseSource source filename).map Respelling.lineFeeds.nodes).mapError Failure.verdict := by
  refine ⟨lex_unified, fun value => ⟨value.kind_unified, TokenValue.unified_eq_self⟩, ?_⟩
  intro look path source filename h
  have hfile := lexFile_of_text h
  refine ⟨hfile, ?_⟩
  rw [parseFile, hfile]
  exact parseSource_unified source filename path

/-- The source `x="a⏎b";⏎` with line ends of two kinds. -/
def returnSource : String := "x=\"a\r\nb\";\r"

/-- The two line ends are read from a file as line feeds, the one in the string literal as part of it. -/
theorem parseFile_unified_return :
    ((parseFile (fun _ => .file returnSource.toUTF8.data.toList) "f").map Node.erasedAll).mapError Failure.verdict =
      .ok [.assign { name := "x", token := some ⟨.identifier "x", 0⟩, type := none }
        [.var (.ofToken ⟨.string "a\nb", 0⟩)] false none] := by
  have hlex : lexSource returnSource = .ok ([⟨.identifier "x", 1⟩, ⟨.character '=', 1⟩, ⟨.string "a\r\nb", 7⟩,
      ⟨.character ';', 8⟩] ++ [.eof 10]) := by with_unfolding_all rfl
  have hleaf : Derives .operand [⟨.string "a\r\nb", 7⟩] [.var (.ofToken ⟨.string "a\r\nb", 7⟩)] := .leaf ⟨rfl, fun mark _ => rfl⟩
  have hequals : (⟨.character '=', 1⟩ : Token).isMark '=' = true := rfl
  have hsemicolon : (⟨.character ';', 8⟩ : Token).isMark ';' = true := rfl
  have hname : (⟨.identifier "x", 1⟩ : Token).name? = some "x" := rfl
  have hstatement := Derives.reassignment hname hequals (hleaf.oneOperand nofun) (by simp) hsemicolon
  have hparse : parseSource returnSource = .ok [.assign { name := "x", token := some ⟨.identifier "x", 1⟩, type := none }
      [.var (.ofToken ⟨.string "a\r\nb", 7⟩)] false none] := by
    rw [parseSource_of_ok hlex]
    exact hstatement.oneStatement.parseTokens_eq (show (Token.eof 10).isEof = true from rfl)
  have hfile := (parseFile_unified.2.2 (fun _ => .file returnSource.toUTF8.data.toList) "f" returnSource defaultFilename rfl).2
  rw [hparse] at hfile
  exact hfile

end TinyScript
