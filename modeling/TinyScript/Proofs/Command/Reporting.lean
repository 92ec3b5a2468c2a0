import TinyScript.Command.Run
import TinyScript.Proofs.Number.Numeral
import TinyScript.Proofs.Scan.Stopping

/-!
# What the command reports

A malformed literal ends the command with its report, whatever console it is on. A too long integer ends it with a failure that
the command does not report, though it is the source that is at fault, whatever the value of the integer is. Within the limits
of the machine, which are not modelled (`TinyScript.Frontend`), nothing else in a source does (`Command.unreported_eq_none_iff`).
-/

namespace TinyScript

/-- What a source is scanned to ends the input, so that it is a slice. -/
theorem exists_slice_of_lex {source filename : String} {tokens : List Token} (h : lex source filename = .ok tokens) :
    ∃ slice, Slice.ofTokens? tokens = .ok slice := by
  obtain ⟨pieces, blanks, -, -, rfl⟩ := exists_factors_of_lex h
  refine ⟨⟨placed 0 pieces, source.length⟩, ?_⟩
  simp [Slice.ofTokens?, Token.eof, Token.isEof]

namespace Command

section Process

variable {source name : String} (c : Console) (o : Options)

/-- A malformed literal is reported, and nothing else is printed. -/
theorem process_of_diagnosed {e : LexError} (h : lex source name = .error (.diagnosed e)) :
    process c o source name = { exitCode := 1, stderr := c.err (trimmedEnd e.diagnostic.render) } := by
  simp only [process, lexSource_of_error h, Failure.ofScan]

/-- A scan that is refused ends the command, and nothing is printed. -/
theorem process_of_refused {reason : Refusal} (h : lex source name = .error (.refused reason)) :
    process c o source name = { exitCode := 1, unreported := some (.refused reason) } := by
  simp only [process, lexSource_of_error h, Failure.ofScan]

/-- Where a source is scanned, every failure is reported. -/
theorem unreported_of_lex {tokens : List Token} (h : lex source name = .ok tokens) :
    (process c o source name).unreported = none := by
  obtain ⟨slice, hslice⟩ := exists_slice_of_lex h
  simp only [process, lexSource_of_ok h, hslice]
  cases slice.parse <;> rfl

end Process

/-- A scan gives tokens or a malformed literal, which is reported, exactly if the source has no too long integer where a
lexeme starts. Among digits alone the number of them decides that, before their value does. -/
theorem unreported_eq_none_iff (c : Console) (o : Options) (source name : String) :
    ((∃ tokens, lex source name = .ok tokens) ∨ (∃ e, lex source name = .error (.diagnosed e)) ↔
      WithinDigitLimit source.toList) ∧
    ((process c o source name).unreported = none ↔ WithinDigitLimit source.toList) ∧
    (∀ e, lex source name = .error (.diagnosed e) →
      process c o source name = { exitCode := 1, stderr := c.err (trimmedEnd e.diagnostic.render) }) ∧
    ∀ digits : List Char, digits ≠ [] → (∀ c ∈ digits, c.isDigit = true) →
      lex (String.ofList digits) name =
        if Refusal.maxDigits < digits.length then .error (.refused (.digitLimit digits.length))
        else if Reading.valueOf digits ≤ 2 ^ 31 - 1 then
          .ok [⟨.integer (Int32.ofNat (Reading.valueOf digits)), digits.length⟩, .eof digits.length]
        else .error (.diagnosed ⟨.overflow (String.ofList digits), .first name⟩) := by
  have hwithin : ¬ (∃ reason, lex source name = .error (.refused reason)) ↔ WithinDigitLimit source.toList :=
    (not_congr (lex_refused_iff source name)).trans Classical.not_not
  refine ⟨?_, ?_, fun e he => process_of_diagnosed c o he, fun digits hne hdigits => lex_digits hne hdigits name⟩
  · rw [← hwithin]
    rcases lex source name with (e | reason) | tokens <;> simp
  · rw [← hwithin]
    rcases hlex : lex source name with (e | reason) | tokens
    · simp [process_of_diagnosed c o hlex]
    · simp [process_of_refused c o hlex]
    · simp [unreported_of_lex c o hlex]

/-- A zero of 4301 digits: in the range of integers it is no integer, and the command reports nothing. -/
theorem unreported_longZero :
    Reading.valueOf (List.replicate 4301 '0') = 0 ∧
    lex (String.ofList (List.replicate 4301 '0')) defaultFilename = .error (.refused (.digitLimit 4301)) ∧
    process .piped {} (String.ofList (List.replicate 4301 '0')) defaultFilename =
      { exitCode := 1, unreported := some (.refused (.digitLimit 4301)) } := by
  have hvalue : Reading.valueOf (List.replicate 4301 '0') = 0 := by
    have hzeros := Decimal.valueOf_zeros_append 4301 []
    rwa [List.append_nil] at hzeros
  have hdigits : ∀ c ∈ List.replicate 4301 '0', c.isDigit = true := by
    intro c hc
    rw [List.eq_of_mem_replicate hc]
    rfl
  have hne : List.replicate 4301 '0' ≠ [] := List.ne_nil_of_length_pos (by rw [List.length_replicate]; decide)
  have hlex := lex_digits hne hdigits defaultFilename
  rw [List.length_replicate, if_pos (by decide)] at hlex
  exact ⟨hvalue, hlex, process_of_refused .piped {} hlex⟩

end Command

end TinyScript
