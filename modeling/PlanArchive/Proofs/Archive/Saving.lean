import PlanArchive.Archive.Saving
import PlanArchive.Proofs.Archive.Document

/-!
# Saving, all or nothing

However a sink takes its octets, the calls of a write come to one write (`Sink.writeAll_eq_write`).
So each saving, step by step and whatever the buffers hold, hands the sink one complete output or
leaves it alone (`Desk.Puts`), and a sink gets a first part of that output, the whole of it if saving
succeeds, and nothing if there is no output (`save_all_or_nothing`).
-/

namespace PlanArchive

open Coding Markup Naming Text

namespace Sink

/-- Takes any number of octets, and flushes. -/
structure Healthy (sink : Sink) : Prop where
  unlimited : sink.limit = none
  flushes : sink.flush = .ok ()

/-- A failure of the stream, on writing or on flushing. -/
def FailsWith (sink : Sink) (failure : Failure) : Prop :=
  ∃ fault, failure = .ofStream "Failed to write XML" fault ∧
    ((∃ room, sink.limit = some (room, fault)) ∨ sink.flush = .error fault)

/-- The sink with more octets taken. -/
def after (sink : Sink) (bytes : Bytes) : Sink := { sink with taken := sink.taken ++ bytes }

variable {sink : Sink} {bytes : Bytes}

@[simp] theorem flush_after (sink : Sink) (bytes : Bytes) :
    (sink.after bytes).flush = sink.flush := rfl

@[simp] theorem after_nil (sink : Sink) : sink.after [] = sink := by
  simp [after]

theorem after_append (sink : Sink) (front back : Bytes) :
    sink.after (front ++ back) = (sink.after front).after back := by
  simp [after]

theorem Healthy.after (h : sink.Healthy) (bytes : Bytes) : (sink.after bytes).Healthy :=
  ⟨h.unlimited, h.flushes⟩

/-- A call takes some octets, or fails where there is no room for any. -/
theorem offer_cases (sink : Sink) (first : UInt8) (more : Bytes) :
    (∃ room fault, sink.limit = some (room, fault) ∧ room ≤ sink.taken.length ∧
      sink.offer first more = (sink, .error fault)) ∨
    ∃ n, n ≤ more.length ∧
      (∀ room fault, sink.limit = some (room, fault) → sink.taken.length + n < room) ∧
      sink.offer first more = (sink.after (first :: more.take n), .ok n) := by
  have hportion := Nat.min_le_right (sink.portion sink.taken more.length) more.length
  cases hlimit : sink.limit with
  | none =>
    refine .inr ⟨_, hportion, by rintro _ _ ⟨⟩, ?_⟩
    simp only [offer, hlimit, after]
  | some limit =>
    obtain ⟨room, fault⟩ := limit
    cases hroom : room - sink.taken.length with
    | zero =>
      refine .inl ⟨room, fault, rfl, by omega, ?_⟩
      simp only [offer, hlimit, hroom]
    | succ left =>
      refine .inr ⟨min (min (sink.portion sink.taken more.length) more.length) left,
        (Nat.min_le_left _ _).trans hportion, ?_, ?_⟩
      · rintro _ _ ⟨⟩
        omega
      · simp only [offer, hlimit, hroom, after]

/-- A write that begins with octets there is room for takes these first. -/
theorem write_append {front back : Bytes}
    (hroom : ∀ room fault, sink.limit = some (room, fault) →
      sink.taken.length + front.length ≤ room) :
    sink.write (front ++ back) = (sink.after front).write back := by
  have hafter : (sink.after front).limit = sink.limit := rfl
  have hlength : (sink.after front).taken.length = sink.taken.length + front.length :=
    List.length_append
  cases hlimit : sink.limit with
  | none => simp only [write, hlimit, after, List.append_assoc]
  | some limit =>
    obtain ⟨room, fault⟩ := limit
    have hfront := hroom room fault hlimit
    have hfits : (front ++ back).length ≤ room - sink.taken.length ↔
        back.length ≤ room - (sink.taken.length + front.length) := by
      rw [List.length_append]
      omega
    have htake : (front ++ back).take (room - sink.taken.length) =
        front ++ back.take (room - (sink.taken.length + front.length)) := by
      rw [List.take_append, List.take_of_length_le (by omega), Nat.sub_add_eq]
    simp only [write, hafter, hlimit, hlength, hfits, htake]
    simp only [after, List.append_assoc]

theorem write_nil (sink : Sink) : sink.write [] = (sink, .ok ()) := by
  obtain ⟨taken, limit, flushFault, portion⟩ := sink
  cases limit <;> simp [write]

theorem write_of_full {room : Nat} {fault : StreamFault} (hlimit : sink.limit = some (room, fault))
    (hfull : room ≤ sink.taken.length) (first : UInt8) (more : Bytes) :
    sink.write (first :: more) = (sink, .error fault) := by
  obtain ⟨taken, limit, flushFault, portion⟩ := sink
  subst hlimit
  simp [write, Nat.sub_eq_zero_of_le hfull]

/-- All calls of a write come to one that takes what there is room for. -/
theorem writeAll_eq_write (sink : Sink) (bytes : Bytes) : sink.writeAll bytes = sink.write bytes := by
  induction hn : bytes.length using Nat.strong_induction_on generalizing sink bytes with
  | _ n ih =>
    cases bytes with
    | nil => rw [writeAll, write_nil]
    | cons first more =>
      rw [writeAll]
      rcases sink.offer_cases first more with ⟨room, fault, hlimit, hfull, hoffer⟩ |
        ⟨m, hm, hroom, hoffer⟩
      · simp only [hoffer, write_of_full hlimit hfull]
      · have hrest := ih (more.drop m).length (by simp at hn ⊢; omega)
          (sink.after (first :: more.take m)) (more.drop m) rfl
        have hsplit : first :: more = (first :: more.take m) ++ more.drop m := by simp
        rw [hsplit, write_append, ← hrest]
        · simp only [hoffer]
        · intro room fault hlimit
          have hlt := hroom room fault hlimit
          simp only [List.length_cons, List.length_take]
          omega

/-- A write takes a first part, and fails unless that is all. -/
theorem exists_write (sink : Sink) (bytes : Bytes) :
    ∃ got result, sink.write bytes = (sink.after got, result) ∧ got <+: bytes ∧
      ((result = .ok () ∧ got = bytes) ∨
        ∃ room fault, sink.limit = some (room, fault) ∧ result = .error fault ∧ got ≠ bytes) := by
  obtain ⟨taken, limit, flushFault⟩ := sink
  cases limit with
  | none => exact ⟨bytes, .ok (), rfl, List.prefix_refl _, .inl ⟨rfl, rfl⟩⟩
  | some limit =>
    obtain ⟨room, fault⟩ := limit
    simp only [write]
    split
    · exact ⟨bytes, .ok (), rfl, List.prefix_refl _, .inl ⟨rfl, rfl⟩⟩
    · rename_i hroom
      refine ⟨_, .error fault, rfl, List.take_prefix _ _, .inr ⟨room, fault, rfl, rfl, ?_⟩⟩
      intro hall
      have hlength := congrArg List.length hall
      rw [List.length_take] at hlength
      omega

/-- Without an output nothing is written. -/
theorem save_error (sink : Sink) (failure : Failure) :
    sink.save (.error failure) = (sink, .error failure) := rfl

theorem save_ok (sink : Sink) (bytes : Bytes) :
    sink.save (.ok bytes) = ((sink.write bytes).1,
      ((sink.write bytes).2.bind fun _ => (sink.write bytes).1.flush).mapError
        (.ofStream "Failed to write XML")) := by
  rcases hwrite : sink.write bytes with ⟨after, fault | _⟩
  · simp only [save, hwrite]
    rfl
  · cases hflush : after.flush <;>
      simp only [save, hwrite, hflush, Except.bind, Except.mapError]

/-- Of an output a first part is taken, and saving succeeds if and only if that is all of it and
the sink flushes. -/
theorem exists_save (sink : Sink) (bytes : Bytes) :
    ∃ got, (sink.save (.ok bytes)).1 = sink.after got ∧ got <+: bytes ∧
      ((sink.save (.ok bytes)).2 = .ok () ↔ got = bytes ∧ sink.flush = .ok ()) ∧
      ∀ failure, (sink.save (.ok bytes)).2 = .error failure → sink.FailsWith failure := by
  obtain ⟨got, result, hwrite, hprefix, hresult⟩ := exists_write sink bytes
  refine ⟨got, ?_⟩
  unfold save
  simp only [hwrite]
  obtain ⟨rfl, rfl⟩ | ⟨room, fault, hlimit, rfl, hpart⟩ := hresult
  · cases hflush : sink.flush with
    | ok => simp [hflush]
    | error fault =>
      refine ⟨by simp [hflush], hprefix, by simp [hflush], ?_⟩
      intro failure hfailure
      simp only [flush_after, hflush, Except.error.injEq] at hfailure
      exact ⟨fault, hfailure.symm, .inr hflush⟩
  · refine ⟨rfl, hprefix, by simp [hpart], ?_⟩
    intro failure hfailure
    exact ⟨fault, (Except.error.inj hfailure).symm, .inl ⟨room, hlimit⟩⟩

theorem Healthy.save (h : sink.Healthy) (output : Except Failure Bytes) :
    sink.save output =
      (sink.after (output.toOption.getD []), output.map fun _ => ()) := by
  cases output with
  | error failure => simp [save_error, Except.toOption, Except.map]
  | ok bytes =>
    have hwrite : sink.write bytes = (sink.after bytes, .ok ()) := by
      simp only [write, h.unlimited, Sink.after]
    simp only [Sink.save, hwrite, flush_after, h.flushes]
    rfl

theorem healthy_empty : ({} : Sink).Healthy := ⟨rfl, rfl⟩

/-- A healthy sink takes the outputs that there are before it goes on. -/
theorem Healthy.saveAll_ok (h : sink.Healthy) (done : List Bytes)
    (rest : List (Except Failure Bytes)) :
    sink.saveAll (done.map .ok ++ rest) = (sink.after done.flatten).saveAll rest := by
  induction done generalizing sink with
  | nil => simp
  | cons bytes done ih =>
    have hsave : sink.save (.ok bytes) = (sink.after bytes, .ok ()) := h.save (.ok bytes)
    simp only [List.map_cons, List.cons_append, saveAll, hsave, ih (h.after bytes),
      List.flatten_cons, after_append]

end Sink

namespace Desk

variable {work : Work Unit} {output : Except Failure Bytes}

/-- Hands the sink one output, if there is one, and leaves it alone if not. Which output that is does
not hang on the sink, nor on what the buffers hold. -/
def Puts (work : Work Unit) (output : Except Failure Bytes) : Prop :=
  ∀ desk : Desk, ∃ buffer,
    desk.perform work = ((desk.sink.save output).2, ⟨buffer, (desk.sink.save output).1⟩)

theorem puts_put (bytes : Bytes) : Puts (put bytes) (.ok bytes) := by
  intro desk
  refine ⟨desk.buffer, ?_⟩
  rw [Sink.save_ok, ← Sink.writeAll_eq_write]
  have hrun : desk.perform (put bytes) =
      perform ⟨desk.buffer, (desk.sink.writeAll bytes).1⟩
        (check ((desk.sink.writeAll bytes).2.bind fun _ => (desk.sink.writeAll bytes).1.flush)) :=
    rfl
  rw [hrun]
  cases (desk.sink.writeAll bytes).2.bind fun _ => (desk.sink.writeAll bytes).1.flush <;> rfl

theorem puts_throw (failure : Failure) : Puts (throw failure) (.error failure) := by
  intro desk
  exact ⟨desk.buffer, rfl⟩

/-- Work on a result that may be missing puts what there is for it. -/
theorem Puts.bind {α : Type} {x : Except Failure α} {work : α → Work Unit}
    {output : α → Except Failure Bytes} (h : ∀ a, Puts (work a) (output a)) :
    Puts (liftM x >>= work) (x >>= output) := by
  cases x with
  | error failure => exact puts_throw failure
  | ok a => exact h a

theorem puts_writeEncoded (charset : Charset) (text : List Char) :
    Puts (writeEncoded charset (Text.Utf8.encode text)) (charset.encode text) := by
  unfold writeEncoded
  rw [Text.Utf8.decode?_encode]
  exact bind_pure (charset.encode text) ▸ Puts.bind puts_put

/-- Work goes on from where its first step ends. -/
theorem run_bind {α β : Type} {first : Work α} {next : α → Work β} {a : α} {desk desk' : Desk}
    (h : desk.perform first = (.ok a, desk')) :
    desk.perform (first >>= next) = desk'.perform (next a) := by
  unfold perform at h ⊢
  simp only [ExceptT.run_bind, StateT.run_bind, h]
  rfl

theorem run_append (mode : Mode) (parts : List Bytes) (desk : Desk) :
    ∃ buffer, desk.perform (parts.forM (append mode)) = (.ok (), { desk with buffer }) ∧
      buffer mode = desk.buffer mode ++ parts.flatten := by
  induction parts generalizing desk with
  | nil => exact ⟨desk.buffer, rfl, by simp⟩
  | cons part parts ih =>
    obtain ⟨buffer, hrun, hbuffer⟩ := ih (desk.perform (append mode part)).2
    refine ⟨buffer, hrun, ?_⟩
    have hpart : (desk.perform (append mode part)).2.buffer mode = desk.buffer mode ++ part :=
      if_pos rfl
    rw [hbuffer, hpart, List.flatten_cons, List.append_assoc]

/-- What the buffers held before does not matter. -/
theorem puts_rendered (charset : Charset) (mode : Mode) {parts : List Bytes} {text : List Char}
    (hparts : parts.flatten = Text.Utf8.encode text) :
    Puts (render mode parts >>= writeEncoded charset) (charset.encode text) := by
  intro desk
  obtain ⟨buffer, hrun, hbuffer⟩ := run_append mode parts (desk.perform (clear mode)).2
  obtain ⟨left, hleft⟩ := puts_writeEncoded charset text ⟨buffer, desk.sink⟩
  have hclear : (desk.perform (clear mode)).2.buffer mode = [] := if_pos rfl
  rw [hclear, List.nil_append, hparts] at hbuffer
  refine ⟨left, ?_⟩
  rw [← hleft, ← hbuffer]
  refine run_bind ?_
  exact (run_bind rfl).trans (run_bind hrun)

theorem puts_saveDocument (charset : Charset) (element : Except Failure Element) :
    Puts (saveDocument charset element) (charset.document element) := by
  unfold saveDocument Charset.document
  cases hwritable : charset.isWritable with
  | false => exact puts_throw _
  | true =>
    refine Puts.bind fun e => puts_rendered charset .document ?_
    simp [utf8, Text.Utf8.encode]

theorem puts_saveRecord (charset : Charset) (element : Except Failure Element) :
    Puts (saveRecord charset element) (charset.record element) := by
  refine Puts.bind fun e => puts_rendered charset .log ?_
  simp [utf8, Text.Utf8.encode]

end Desk

namespace Archive

theorem puts_saveElement (archive : Archive) (value : Value) :
    Desk.Puts (archive.saveElement value) (archive.elementDocument value) :=
  Desk.Puts.bind fun charset => Desk.puts_saveDocument charset _

/-- Whatever is saved, step by step, comes to one output. -/
theorem puts_save (archive : Archive) (saving : Saving) :
    Desk.Puts (archive.save saving) (archive.output saving) := by
  cases saving with
  | plan plan => exact archive.puts_saveElement _
  | element value => exact archive.puts_saveElement value
  | record value event => exact Desk.Puts.bind fun charset => Desk.puts_saveRecord charset _
  | logStart =>
    refine Desk.Puts.bind fun charset => Desk.Puts.bind fun tag => ?_
    have htext : utf8 s!"{charset.header}\n<{tag} version=\"{formatVersion}\">\n" =
        Text.Utf8.encode (charset.header.toList ++ s!"\n<{tag} version=\"".toList ++
          formatVersion.toList ++ "\">\n".toList) := by
      simp only [utf8, String.toList_append, List.append_assoc]
      rfl
    rw [htext]
    exact Desk.puts_writeEncoded charset _
  | logEnd =>
    exact Desk.Puts.bind fun charset => Desk.Puts.bind fun tag => Desk.puts_writeEncoded charset _

/-- The outputs that there are, one after another. -/
def outputs (archive : Archive) (savings : List Saving) : Bytes :=
  savings.flatMap fun saving => (archive.output saving).toOption.getD []

theorem run_saveEach_cons (archive : Archive) (saving : Saving) (rest : List Saving) (desk : Desk) :
    (archive.saveEach (saving :: rest)).run desk =
      let (outcome, desk) := desk.perform (archive.save saving)
      let (outcomes, desk) := (archive.saveEach rest).run desk
      (outcome :: outcomes, desk) := rfl

/-- A healthy sink is left with the outputs that there were. -/
theorem saveEach_of_healthy (archive : Archive) (savings : List Saving) (desk : Desk)
    (h : desk.sink.Healthy) :
    ∃ buffer, (archive.saveEach savings).run desk =
      (savings.map fun saving => (archive.output saving).map fun _ => (),
        ⟨buffer, desk.sink.after (archive.outputs savings)⟩) := by
  induction savings generalizing desk with
  | nil =>
    refine ⟨desk.buffer, ?_⟩
    simp only [outputs, List.flatMap_nil, Sink.after_nil]
    rfl
  | cons saving savings ih =>
    obtain ⟨buffer, hsave⟩ := archive.puts_save saving desk
    rw [h.save] at hsave
    obtain ⟨left, hrest⟩ := ih
      ⟨buffer, desk.sink.after ((archive.output saving).toOption.getD [])⟩ (h.after _)
    refine ⟨left, ?_⟩
    simp only [run_saveEach_cons, hsave, hrest, List.map_cons, outputs, List.flatMap_cons,
      Sink.after_append]

/-- However a sink behaves and whatever the buffers hold, saving gives the sink a first part of the one
complete output of what is saved: all of it if and only if saving succeeds, flushing included, and
nothing if there is no output. So after any run of savings a healthy sink holds the outputs of those
that succeeded, one after another. -/
theorem save_all_or_nothing (archive : Archive) :
    (∀ (saving : Saving) (desk : Desk),
      (∀ failure, archive.output saving = .error failure →
        (desk.perform (archive.save saving)).1 = .error failure ∧
          (desk.perform (archive.save saving)).2.sink = desk.sink) ∧
      ∀ bytes, archive.output saving = .ok bytes →
        ∃ got, (desk.perform (archive.save saving)).2.sink = desk.sink.after got ∧ got <+: bytes ∧
          ((desk.perform (archive.save saving)).1 = .ok () ↔
            got = bytes ∧ desk.sink.flush = .ok ()) ∧
          ∀ failure, (desk.perform (archive.save saving)).1 = .error failure →
            desk.sink.FailsWith failure) ∧
    ∀ (savings : List Saving) (desk : Desk), desk.sink.Healthy →
      ((archive.saveEach savings).run desk).1 =
          savings.map (fun saving => (archive.output saving).map fun _ => ()) ∧
        ((archive.saveEach savings).run desk).2.sink =
          desk.sink.after (archive.outputs savings) := by
  constructor
  · intro saving desk
    obtain ⟨buffer, hsave⟩ := archive.puts_save saving desk
    rw [hsave]
    constructor
    · intro failure hfailure
      rw [hfailure]
      exact ⟨rfl, rfl⟩
    · intro bytes hbytes
      rw [hbytes]
      exact desk.sink.exists_save bytes
  · intro savings desk hhealthy
    obtain ⟨buffer, hrun⟩ := archive.saveEach_of_healthy savings desk hhealthy
    rw [hrun]
    exact ⟨rfl, rfl⟩

/-- What earlier savings left in the buffers. -/
def leftOver : Mode → Bytes := fun _ => [0x3C, 0x78]

/-- A sink with room for three octets, which takes them one by one. -/
def shortSink : Sink :=
  { limit := some (3, ⟨false, "no space left"⟩), portion := fun _ _ => 0 }

/-- A sink that takes two octets at a time. -/
def slowSink : Sink := { portion := fun _ _ => 1 }

/-- An object of a type that gives no tag. -/
def untagged : Value := .object "a b" [] []

def closing : Bytes := utf8 "</org.apache.jmeter.save.TestResultWrapper>\n"

set_option maxRecDepth 20000 in
theorem output_logEnd_small : small.output .logEnd = .ok closing := by rfl

set_option maxRecDepth 20000 in
theorem output_untagged_small :
    small.output (.element untagged) = .error (.unwritable (.noTag "a b" "a b")) := by rfl

theorem save_all_or_nothing_small :
    ((Desk.perform ⟨leftOver, shortSink⟩ (small.save (.element untagged))).1 =
          .error (.unwritable (.noTag "a b" "a b")) ∧
        (Desk.perform ⟨leftOver, shortSink⟩ (small.save (.element untagged))).2.sink = shortSink) ∧
      (∃ got, (Desk.perform ⟨leftOver, shortSink⟩ (small.save .logEnd)).2.sink = shortSink.after got ∧
        got <+: closing ∧
        ((Desk.perform ⟨leftOver, shortSink⟩ (small.save .logEnd)).1 = .ok () ↔
          got = closing ∧ shortSink.flush = .ok ()) ∧
        ∀ failure, (Desk.perform ⟨leftOver, shortSink⟩ (small.save .logEnd)).1 = .error failure →
          shortSink.FailsWith failure) ∧
      ((small.saveEach [.logEnd, .element untagged, .logEnd]).run ⟨leftOver, slowSink⟩).2.sink =
        slowSink.after (closing ++ closing) := by
  obtain ⟨hsave, hrun⟩ := small.save_all_or_nothing
  refine ⟨(hsave _ _).1 _ output_untagged_small, (hsave _ _).2 _ output_logEnd_small, ?_⟩
  rw [(hrun _ ⟨leftOver, slowSink⟩ ⟨rfl, rfl⟩).2]
  simp only [outputs, List.flatMap_cons, List.flatMap_nil, output_logEnd_small,
    output_untagged_small]
  rfl

end Archive

end PlanArchive
