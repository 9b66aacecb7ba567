import NetTrace.Proofs.Signal.Whitelist
import NetTrace.Proofs.Vcd.Truncation

namespace NetTrace.Source

open NetTrace.Stream (ofSource replies served reported shown report)

variable {source other : Source} {reason : String}

theorem awaits_open (fails : source.failure? = some reason) :
    (ofSource source).Under (Stream.Awaits (some reason)) := .inl ⟨fails, rfl⟩

theorem replies_of_bytes (same : other.bytes = source.bytes) (requests : List Request) :
    (replies requests (ofSource source)).map shown = (replies requests (ofSource other)).map shown := by
  exact Stream.replies_alike requests (Stream.shows_opened rfl) (Stream.shows_opened same)

/-- A failure is never taken for the end of the data. A session on a stream does not see it before
    it asks, and is told at the end of the stream at the latest, but once only. Keys are not told
    without it, and the variables of a header only where no data after it can change them. -/
theorem failure_is_no_end (fails : source.failure? = some reason) :
    (∀ other : Source, other.failure? = none → other.bytes = source.bytes →
      ∀ requests, (replies requests (ofSource source)).map shown =
        (replies requests (ofSource other)).map shown) ∧
    (∀ requests steps, (served requests (ofSource source)).isExhausted.1 = true →
      let rest := reached Step.onStream steps (served requests (ofSource source)).isExhausted.2
      rest.checkFailure.1 =
          report (if reported requests (ofSource source) then none else some reason) ∧
        ∀ more, reported more rest.checkFailure.2 = false) ∧
    (∀ found, Signal.keys source ≠ .ok found) ∧
    (∀ (other : Source) (found : List Text), other.failure? = none → other.bytes = source.bytes →
      Signal.keys other = .ok found →
        Signal.keys source = .error { cause := .readFailure reason }) ∧
    ∀ declared, Vcd.Header.scan source = .ok declared →
      ∀ other : Source, other.failure? = none → source.bytes <+: other.bytes →
        Vcd.Header.scan other = .ok declared := by
  have awaits := awaits_open fails
  refine ⟨?alike, ?told, ?keys, ?alone, ?header⟩
  case alike =>
    intro other _ same requests
    exact replies_of_bytes same requests
  case told =>
    intro requests steps ended
    exact Stream.check_at_end requests steps awaits ended
  case keys => exact Signal.keys_ne_ok fails
  case alone =>
    intro other found _ same scanned
    exact Signal.keys_of_ok fails same scanned
  case header =>
    intro declared scanned other lasting starts
    exact Vcd.Header.scan_of_ok fails scanned lasting starts

theorem failure_is_no_end_closed :
    let list : Source := [.chunk "clk dat".toUTF8.data, .interrupted, .chunk "a[1]".toUTF8.data,
      .failed "disk"]
    let dump : Source := [.chunk "$var wire 1 ! a $end $enddef".toUTF8.data, .interrupted,
      .chunk "initions $end".toUTF8.data, .failed "disk"]
    let longer : Source := [.chunk "$var wire 1 ! a $end $enddefinitions $ending".toUTF8.data]
    let calls : List Request := [.call (.consume .signalKey), .call (.consume .signalKey)]
    let ended := (served calls (ofSource list)).isExhausted.2
    list.failure? = some "disk" ∧ dump.failure? = some "disk" ∧
      ended.checkFailure.1 = .error { cause := .readFailure "disk" } ∧
      (∀ more, reported more ended.checkFailure.2 = false) ∧
      Signal.keys list = .error { cause := .readFailure "disk" } ∧
      Vcd.Header.scan longer =
        .ok [{ type := .wire, width := 1, code := "!".toList, name := "a".toList }] := by
  intro list dump longer calls ended
  have fails : list.failure? = some "disk" := by decide
  have fails' : dump.failure? = some "disk" := by decide
  obtain ⟨-, told, -, alone, -⟩ := failure_is_no_end fails
  obtain ⟨-, -, -, -, header⟩ := failure_is_no_end fails'
  have exhausted : (served calls (ofSource list)).isExhausted.1 = true := by decide +kernel
  have silent : reported calls (ofSource list) = false := by decide +kernel
  obtain ⟨first, later⟩ := told calls [] exhausted
  rw [silent] at first
  have found : Signal.keys [.chunk "clk data[1]".toUTF8.data] =
      .ok ["clk".toList, "data[1]".toList] := by
    decide +kernel
  have scanned : Vcd.Header.scan dump =
      .ok [{ type := .wire, width := 1, code := "!".toList, name := "a".toList }] := by
    decide +kernel
  exact ⟨fails, fails', first, later, alone _ _ (by decide) (by decide) found,
    header _ scanned longer (by decide) ⟨"ing".toUTF8.data.toList, by decide⟩⟩

end NetTrace.Source
