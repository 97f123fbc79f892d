import BorgManager.Blocks
import BorgManager.RemoteCommand
import BorgManager.Utf8Decoding
import Mathlib.Data.List.DropRight

namespace BorgManager.CommandExecution

open Blocks RemoteCommand
open SecretStore (Text)

/-- What a statement can raise. `cancelled` is `asyncio.CancelledError`, and
`timeout` is `TimeoutError`. -/
inductive Raised
  | timeout
  | cancelled
  | commandCancelled (forced remoteCleanupConfirmed : Bool)
  | failure (message : Text)

abbrev Outcome (α : Type) := Except Raised α

inductive Signal
  | interrupt
  | terminate
  | kill
  deriving DecidableEq

/-- How an await ends: with a value, or something is raised. The process can
have ended in any case. -/
structure Await (α : Type) where
  exited : Bool
  result : Outcome α

/-- The awaits of `stop_process_gracefully`. Those with a time limit say whether
what they wait for has come in time. The last one, which returns exceptions,
says whether the pumps and the process have ended or a pump has raised. -/
structure Stopping where
  closed : Await Unit
  confirmed : Await Bool
  interrupted : Await Bool
  terminated : Await Bool
  killed : Await Bool
  gathered : Await Bool

/-- How the process runs at first. -/
inductive First
  | exited
  | elapsed
  | aborted

/-- Everything outside of the function that decides how it goes. The chunks are
those that the callbacks of the pumps have left. -/
structure World where
  directoryCreated : Outcome Text
  fileWritten : Nat → Outcome Unit
  spawned : Outcome Unit
  payload : Await Unit
  first : Await First
  abortStop : Stopping
  cancelStop : Stopping
  timeoutTerminated : Await Bool
  timeoutKilled : Await Bool
  timeoutGathered : Await Bool
  abortJoined : Await Unit
  last : Await Bool
  returncode : Int
  abortReason : Text
  stdout : List (List UInt8)
  stderr : List (List UInt8)

/-- The files of the temporary directory, the arguments that the process was
started with, and what has happened to it. -/
structure State where
  directory : Option (List (Text × Text))
  started : Option (List Text)
  exited : Bool
  stdin : Bool
  signals : List Signal

abbrev ExecuteBlock := Block Raised State

/-- `str.replace`, with the number of letters of a match that are still to be
passed over. -/
def replaceFrom (old new : Text) : Nat → Text → Text
  | _, [] => []
  | n + 1, _ :: text => replaceFrom old new n text
  | 0, c :: text =>
      if old.isPrefixOf (c :: text) then new ++ replaceFrom old new (old.length - 1) text
      else c :: replaceFrom old new 0 text

def replaceTempFilePlaceholders (argv : List Text) (replacements : List (Text × Text)) : List Text :=
  argv.map (fun argument => replacements.foldl (fun argument r => replaceFrom r.1 r.2 0 argument) argument)

/-- A chunk is added; of too much output only the end is kept. -/
def capture (limit : Option Nat) (output chunk : List UInt8) : List UInt8 :=
  match limit with
  | some n => if 0 < n ∧ n < (output ++ chunk).length then (output ++ chunk).rtake n else output ++ chunk
  | none => output ++ chunk

def captured (limit : Option Nat) (chunks : List (List UInt8)) : List UInt8 := chunks.foldl (capture limit) []

variable (c : Command) (limit : Option Nat) (w : World)

def secretPath (root : Text) (index : Nat) : Text := root ++ "/secret-".toList ++ Nat.toDigits 10 index

/-- One secret goes into a file of its own. -/
def writeSecret (root : Text) (file : (Text × Text) × Nat) : ExecuteBlock Unit := do
  effect (w.fileWritten file.2)
  update (fun s => { s with directory := s.directory.map (fun files => files ++ [(secretPath root file.2, file.1.2)]) })

def prepare : ExecuteBlock (List Text) :=
  if c.tempFiles.isEmpty then pure c.argv
  else do
    let root ← effect w.directoryCreated
    update (fun s => { s with directory := some [] })
    forEach (c.tempFiles.zipIdx 1) (writeSecret w root)
    return replaceTempFilePlaceholders c.argv
      ((c.tempFiles.zipIdx 1).map (fun file => (file.1.1, secretPath root file.2)))

def spawn (argv : List Text) : ExecuteBlock Unit := do
  effect w.spawned
  update (fun s => { s with started := some argv, stdin := c.stdinData.isSome })

def awaited {α : Type} (v : Await α) : ExecuteBlock α := do
  update (fun s => { s with exited := s.exited || v.exited })
  effect v.result

def sendPayload : ExecuteBlock Unit :=
  when c.stdinData.isSome (do
    awaited w.payload
    when (!c.stdinControlledCancel) (update (fun s => { s with stdin := false })))

def State.alive (s : State) : Bool := s.started.isSome && !s.exited

def signalProcessGroup (signal : Signal) : ExecuteBlock Unit :=
  update (fun s => if s.alive then { s with signals := s.signals ++ [signal] } else s)

def waitFor (v : Await Bool) : ExecuteBlock Bool := do
  let ended ← awaited v
  when ended (update (fun s => { s with exited := true }))
  return ended

/-- The end of the pumps and of the process, or of a pump that has raised. -/
def gather (v : Await Bool) : ExecuteBlock Unit := do
  let _ ← waitFor v
  return ()

def waitAfterSignal (signal : Signal) (v : Await Bool) : ExecuteBlock Bool := do
  signalProcessGroup signal
  waitFor v

def closeInput (v : Stopping) : ExecuteBlock Unit := do
  let isOpen ← Blocks.read State.stdin
  when isOpen (do
    update (fun s => { s with stdin := false })
    awaited v.closed)

/-- The wrapper on the device ends Borg by itself when its input ends. -/
def confirmStop (v : Stopping) : ExecuteBlock Bool :=
  if c.stdinControlledCancel && c.stdinData.isSome then do
    closeInput v
    waitFor v.confirmed
  else pure false

/-- A signal and its wait, and a stronger one if that was of no use. -/
def terminate (terminated killed : Await Bool) : ExecuteBlock Unit := do
  let gone ← waitAfterSignal .terminate terminated
  when (!gone) (do
    let _ ← waitAfterSignal .kill killed
    return ())

def interrupt (v : Stopping) : ExecuteBlock Bool := do
  let gone ← waitAfterSignal .interrupt v.interrupted
  when (!gone) (terminate v.terminated v.killed)
  return !gone

def stopProcessGracefully (v : Stopping) : ExecuteBlock (Bool × Bool) := do
  let confirmed ← confirmStop c v
  let forced ← if confirmed then pure false else interrupt v
  gather v.gathered
  return (forced, confirmed)

abbrev Result := Int × Text × Text

def outputText (chunks : List (List UInt8)) : Text := Utf8Decoding.decode (captured limit chunks)

def watch : ExecuteBlock Result := do
  let first ← awaited w.first
  match first with
  | .exited =>
      update (fun s => { s with exited := true })
      return (w.returncode, outputText limit w.stdout, outputText limit w.stderr)
  | .elapsed => raise .timeout
  | .aborted =>
      let _ ← stopProcessGracefully c w.abortStop
      return (75, outputText limit w.stdout, w.abortReason)

def handle (e : Raised) : ExecuteBlock Result :=
  match e with
  | .timeout => do
      terminate w.timeoutTerminated w.timeoutKilled
      gather w.timeoutGathered
      return (124, outputText limit w.stdout, "Command timed out".toList)
  | .cancelled => do
      let (forced, confirmed) ← stopProcessGracefully c w.cancelStop
      raise (.commandCancelled forced confirmed)
  | e => raise e

def killRest : ExecuteBlock Unit := do
  let alive ← Blocks.read State.alive
  when alive (do
    let _ ← waitAfterSignal .kill w.last
    return ())

/-- The outer `finally` block. The directory is the last to go. -/
def cleanup : ExecuteBlock Unit := do
  update (fun s => { s with stdin := false })
  killRest w
  update (fun s => { s with directory := none })

/-- What stands between the two `finally` blocks. -/
def run : ExecuteBlock Result := do
  let argv ← prepare c w
  spawn c w argv
  sendPayload c w
  tryFinally (tryExcept (watch c limit w) (handle c limit w)) (awaited w.abortJoined)

def execute : ExecuteBlock Result := tryFinally (run c limit w) (cleanup w)

def untouched : State := ⟨none, none, false, false, []⟩

theorem rtake_append_rtake {α : Type} (xs ys : List α) (n : Nat) : (xs.rtake n ++ ys).rtake n = (xs ++ ys).rtake n := by
  rw [List.rtake_eq_reverse_take_reverse, List.rtake_eq_reverse_take_reverse, List.rtake_eq_reverse_take_reverse,
    List.reverse_append, List.reverse_reverse, List.reverse_append, List.take_append, List.take_append, List.take_take,
    Nat.min_eq_left (Nat.sub_le n _)]

theorem capture_of_pos {n : Nat} (h : 0 < n) (output chunk : List UInt8) :
    capture (some n) output chunk = (output ++ chunk).rtake n := by
  rw [capture]
  split
  · rfl
  · next hlarge =>
      have hle : (output ++ chunk).length ≤ n := Nat.le_of_not_lt fun hlt => hlarge ⟨h, hlt⟩
      rw [List.rtake, Nat.sub_eq_zero_of_le hle, List.drop_zero]

theorem foldl_capture {n : Nat} (h : 0 < n) (chunks : List (List UInt8)) (output : List UInt8) :
    chunks.foldl (capture (some n)) (output.rtake n) = (output ++ chunks.flatten).rtake n := by
  induction chunks generalizing output with
  | nil => rw [List.foldl_nil, List.flatten_nil, List.append_nil]
  | cons chunk chunks ih =>
      rw [List.foldl_cons, capture_of_pos h, rtake_append_rtake, ih, List.flatten_cons, List.append_assoc]

theorem foldl_append {add : List UInt8 → List UInt8 → List UInt8}
    (h : ∀ output chunk, add output chunk = output ++ chunk) (chunks : List (List UInt8))
    (output : List UInt8) : chunks.foldl add output = output ++ chunks.flatten := by
  induction chunks generalizing output with
  | nil => exact (List.append_nil _).symm
  | cons chunk chunks ih => rw [List.foldl_cons, h, ih, List.flatten_cons, List.append_assoc]

/-- Whatever the chunks are in which the output comes, its end is kept. -/
theorem captured_eq (limit : Option Nat) (chunks : List (List UInt8)) :
    captured limit chunks = match limit.filter (fun n => 0 < n) with
      | some n => chunks.flatten.rtake n
      | none => chunks.flatten := by
  cases limit with
  | none => exact foldl_append (fun _ _ => rfl) chunks []
  | some n =>
      by_cases hn : 0 < n
      · rw [Option.filter_some_pos (by simpa using hn)]
        have hfold := foldl_capture hn chunks []
        rw [List.rtake_nil, List.nil_append] at hfold
        exact hfold
      · rw [Option.filter_some_neg (by simpa using hn)]
        exact foldl_append (fun _ _ => if_neg (fun h => hn h.1)) chunks []

variable {c limit w} {s : State}

/-- What is left as it is by the stopping of the process. -/
structure Frame (s t : State) : Prop where
  directory : t.directory = s.directory
  started : t.started = s.started
  exited : s.exited = true → t.exited = true

theorem Frame.refl (s : State) : Frame s s := ⟨rfl, rfl, id⟩

theorem Frame.trans {s t u : State} (h : Frame s t) (k : Frame t u) : Frame s u :=
  ⟨k.directory.trans h.directory, k.started.trans h.started, fun hs => k.exited (h.exited hs)⟩

theorem Frame.dead {s t : State} (h : Frame s t) (hdead : s.alive = false) : t.alive = false := by
  rw [State.alive, h.started]
  rw [State.alive, Bool.and_eq_false_iff] at hdead
  rcases hdead with hnone | hexited
  · rw [hnone, Bool.false_and]
  · rw [h.exited (by simpa using hexited), Bool.not_true, Bool.and_false]

/-- The signals of a plan are sent one after the other, as long as the process
lives. -/
structure Sends (plan : List Signal) (s t : State) : Prop where
  frame : Frame s t
  signals : ∃ sent, sent <+: plan ∧ t.signals = s.signals ++ sent ∧ (s.alive = false → sent = [])

theorem Sends.none {plan : List Signal} {s t : State} (h : Frame s t) (hsignals : t.signals = s.signals) :
    Sends plan s t :=
  ⟨h, [], List.nil_prefix, by rw [hsignals, List.append_nil], fun _ => rfl⟩

/-- A signal is sent to a process that lives. -/
def Sent (signal : Signal) (s t : State) : Prop :=
  t.signals = if s.alive then s.signals ++ [signal] else s.signals

theorem Sent.sends {signal : Signal} {plan : List Signal} {s t : State} (h : Sent signal s t) (hframe : Frame s t) :
    Sends (signal :: plan) s t := by
  rw [Sent] at h
  cases halive : s.alive with
  | true =>
      rw [halive, if_pos rfl] at h
      exact ⟨hframe, [signal], ⟨plan, rfl⟩, h, fun hdead => absurd hdead (by simp [halive])⟩
  | false =>
      rw [halive, if_neg Bool.false_ne_true] at h
      exact .none hframe h

theorem Sent.cons {signal : Signal} {plan : List Signal} {s t u : State} (h : Sent signal s t) (hframe : Frame s t)
    (k : Sends plan t u) : Sends (signal :: plan) s u := by
  obtain ⟨sent, hplan, hsignals, hdead⟩ := k.signals
  rw [Sent] at h
  cases halive : s.alive with
  | true =>
      rw [halive, if_pos rfl] at h
      refine ⟨hframe.trans k.frame, signal :: sent, (List.prefix_cons_inj signal).mpr hplan, ?_,
        fun hd => absurd hd (by simp [halive])⟩
      rw [hsignals, h, List.append_assoc, List.singleton_append]
  | false =>
      rw [halive, if_neg Bool.false_ne_true] at h
      refine .none (hframe.trans k.frame) ?_
      rw [hsignals, hdead (hframe.dead halive), List.append_nil, h]

theorem Sends.extend {plan : List Signal} {s t u : State} (h : Sends plan s t) (hframe : Frame t u)
    (hsignals : u.signals = t.signals) :
    Sends plan s u := ⟨h.frame.trans hframe, by rw [hsignals]; exact h.signals⟩

theorem Sends.after {plan : List Signal} {s t u : State} (h : Sends plan t u) (hframe : Frame s t)
    (hsignals : t.signals = s.signals) :
    Sends plan s u := by
  obtain ⟨sent, hplan, hu, hdead⟩ := h.signals
  exact ⟨hframe.trans h.frame, sent, hplan, by rw [hu, hsignals], fun hd => hdead (hframe.dead hd)⟩

theorem awaited_ends {α : Type} (v : Await α) :
    Ends (awaited v) s (fun outcome t => Frame s t ∧ t.signals = s.signals ∧ t.stdin = s.stdin ∧
      outcome = v.result) := by
  rw [awaited, ends_bind, ends_update]
  exact ⟨⟨rfl, rfl, fun h => by simp [effect, h]⟩, rfl, rfl, rfl⟩

theorem waitFor_ends (v : Await Bool) :
    Ends (waitFor v) s (fun outcome t => Frame s t ∧ t.signals = s.signals ∧ t.stdin = s.stdin ∧ outcome = v.result ∧
      (outcome = .ok true → t.exited = true)) := by
  rw [waitFor, ends_bind]
  apply ends_mono (awaited_ends v)
  rintro outcome t ⟨hframe, hsignals, hstdin, rfl⟩
  cases v.result with
  | error e => exact ⟨hframe, hsignals, hstdin, rfl, by rintro ⟨⟩⟩
  | ok ended =>
      dsimp only
      rw [ends_bind, ends_when]
      refine ⟨?_, ?_⟩
      · rintro rfl
        exact ⟨⟨hframe.directory, hframe.started, fun _ => rfl⟩, hsignals, hstdin, rfl, fun _ => rfl⟩
      · rintro rfl
        exact ⟨hframe, hsignals, hstdin, rfl, by rintro ⟨⟩⟩

theorem gather_ends (v : Await Bool) :
    Ends (gather v) s (fun outcome t => Frame s t ∧ t.signals = s.signals ∧ t.stdin = s.stdin ∧
      outcome = v.result.map (fun _ => ()) ∧ (v.result = .ok true → t.exited = true)) := by
  rw [gather, ends_bind]
  apply ends_mono (waitFor_ends v)
  rintro outcome t ⟨hframe, hsignals, hstdin, rfl, hexited⟩
  cases hresult : v.result with
  | error e => exact ⟨hframe, hsignals, hstdin, rfl, by rintro ⟨⟩⟩
  | ok ended => exact ⟨hframe, hsignals, hstdin, rfl, fun h => hexited (hresult.trans h)⟩

theorem waitAfterSignal_ends (signal : Signal) (v : Await Bool) :
    Ends (waitAfterSignal signal v) s
      (fun outcome t => Frame s t ∧ Sent signal s t ∧ t.stdin = s.stdin ∧ outcome = v.result ∧
      (outcome = .ok true → t.exited = true)) := by
  rw [waitAfterSignal, signalProcessGroup, ends_bind, ends_update]
  apply ends_mono (waitFor_ends v)
  rintro outcome t ⟨hframe, hsignals, hstdin, hout, hexited⟩
  rw [Sent, hsignals]
  cases halive : s.alive with
  | true =>
      rw [halive, if_pos rfl] at hframe hstdin
      exact ⟨⟨hframe.directory, hframe.started, hframe.exited⟩, by simp, hstdin, hout, hexited⟩
  | false =>
      rw [halive, if_neg Bool.false_ne_true] at hframe hstdin
      exact ⟨hframe, by simp, hstdin, hout, hexited⟩

theorem terminate_ends (terminated killed : Await Bool) :
    Ends (terminate terminated killed) s (fun outcome t => Sends [.terminate, .kill] s t ∧ t.stdin = s.stdin ∧
      (terminated.result.isOk = true → killed.result.isOk = true → outcome = .ok ())) := by
  rw [terminate, ends_bind]
  apply ends_mono (waitAfterSignal_ends .terminate terminated)
  rintro outcome t ⟨hframe, hsent, hstdin, rfl, -⟩
  cases hterm : terminated.result with
  | error e => exact ⟨hsent.sends hframe, hstdin, by rintro ⟨⟩⟩
  | ok gone =>
      dsimp only
      rw [ends_when]
      refine ⟨fun _ => ?_, fun _ => ⟨hsent.sends hframe, hstdin, fun _ _ => rfl⟩⟩
      rw [ends_bind]
      apply ends_mono (waitAfterSignal_ends .kill killed)
      rintro outcome u ⟨hframe', hsent', hstdin', rfl, -⟩
      have hkilled : Sends [.kill] _ _ := hsent'.sends hframe'
      have hsends := hsent.cons hframe hkilled
      cases killed.result with
      | error e => exact ⟨hsends, hstdin'.trans hstdin, by rintro - ⟨⟩⟩
      | ok value => exact ⟨hsends, hstdin'.trans hstdin, fun _ _ => rfl⟩

theorem interrupt_ends (v : Stopping) :
    Ends (interrupt v) s (fun outcome t => Sends [.interrupt, .terminate, .kill] s t ∧ t.stdin = s.stdin ∧
      (outcome = .ok false → Sends [.interrupt] s t) ∧
      (v.terminated.result.isOk = true → v.killed.result.isOk = true → outcome = v.interrupted.result.map not)) := by
  rw [interrupt, ends_bind]
  apply ends_mono (waitAfterSignal_ends .interrupt v.interrupted)
  rintro outcome t ⟨hframe, hsent, hstdin, rfl, -⟩
  cases v.interrupted.result with
  | error e => exact ⟨hsent.sends hframe, hstdin, by rintro ⟨⟩, fun _ _ => rfl⟩
  | ok gone =>
      cases gone with
      | true => exact ⟨hsent.sends hframe, hstdin, fun _ => hsent.sends hframe, fun _ _ => rfl⟩
      | false =>
          dsimp only
          rw [ends_bind]
          apply ends_mono (terminate_ends v.terminated v.killed)
          rintro outcome u ⟨hsends, hstdin', hok⟩
          cases outcome with
          | error e =>
              refine ⟨hsent.cons hframe hsends, hstdin'.trans hstdin, by rintro ⟨⟩, fun ht hk => ?_⟩
              cases hok ht hk
          | ok value => exact ⟨hsent.cons hframe hsends, hstdin'.trans hstdin, by rintro ⟨⟩, fun _ _ => rfl⟩

theorem closeInput_ends (v : Stopping) :
    Ends (closeInput v) s (fun outcome t => Frame s t ∧ t.signals = s.signals ∧ t.stdin = false ∧
      (v.closed.result = .ok () → outcome = .ok ())) := by
  rw [closeInput, ends_bind, ends_read]
  dsimp only
  rw [ends_when]
  refine ⟨fun _ => ?_, fun hclosed => ⟨Frame.refl s, rfl, hclosed, fun _ => rfl⟩⟩
  rw [ends_bind, ends_update]
  apply ends_mono (awaited_ends v.closed)
  rintro outcome t ⟨hframe, hsignals, hstdin, rfl⟩
  exact ⟨⟨hframe.directory, hframe.started, hframe.exited⟩, hsignals, hstdin, id⟩

/-- Whether there is a wrapper that can confirm the stop. -/
def supervised (c : Command) : Bool := c.stdinControlledCancel && c.stdinData.isSome

theorem confirmStop_ends (v : Stopping) :
    Ends (confirmStop c v) s (fun outcome t => Frame s t ∧ t.signals = s.signals ∧ (s.stdin = false → t.stdin = false) ∧
      (v.closed.result = .ok () → outcome = if supervised c then v.confirmed.result else .ok false)) := by
  rw [confirmStop, supervised]
  cases c.stdinControlledCancel && c.stdinData.isSome with
  | false => exact ⟨Frame.refl s, rfl, id, fun _ => rfl⟩
  | true =>
      rw [if_pos rfl, ends_bind]
      apply ends_mono (closeInput_ends v)
      rintro outcome t ⟨hframe, hsignals, hstdin, hok⟩
      cases outcome with
      | error e =>
          refine ⟨hframe, hsignals, fun _ => hstdin, fun hclosed => ?_⟩
          cases hok hclosed
      | ok value =>
          apply ends_mono (waitFor_ends v.confirmed)
          rintro outcome u ⟨hframe', hsignals', hstdin', rfl, -⟩
          exact ⟨hframe.trans hframe', hsignals'.trans hsignals, fun _ => hstdin'.trans hstdin, fun _ => rfl⟩

/-- The answers of all awaits of a stop: nothing is raised in it, neither by
one of them nor by a pump. -/
structure Undisturbed (v : Stopping) (confirmed gone : Bool) : Prop where
  closed : v.closed.result = .ok ()
  confirmed : v.confirmed.result = .ok confirmed
  interrupted : v.interrupted.result = .ok gone
  terminated : v.terminated.result.isOk = true
  killed : v.killed.result.isOk = true
  gathered : v.gathered.result = .ok true

theorem stop_ends (v : Stopping) :
    Ends (stopProcessGracefully c v) s (fun outcome t => Sends [.interrupt, .terminate, .kill] s t ∧
      (s.stdin = false → t.stdin = false) ∧
      (∀ forced confirmed, outcome = .ok (forced, confirmed) → (v.gathered.result = .ok true → t.exited = true) ∧
        (confirmed = true → t.signals = s.signals) ∧ (forced = false → Sends [.interrupt] s t)) ∧
      (∀ confirmed gone, Undisturbed v confirmed gone →
        outcome = .ok (!(supervised c && confirmed) && !gone, supervised c && confirmed))) := by
  rw [stopProcessGracefully, ends_bind]
  apply ends_mono (confirmStop_ends v)
  rintro outcome t ⟨hframe, hsignals, hstdin, hanswer⟩
  cases outcome with
  | error e =>
      refine ⟨.none hframe hsignals, hstdin, by rintro forced confirmed ⟨⟩, fun confirmed gone hv => ?_⟩
      have hcontra := hanswer hv.closed
      rw [hv.confirmed] at hcontra
      cases hsup : supervised c <;> rw [hsup] at hcontra <;> cases hcontra
  | ok stopped =>
      cases stopped with
      | true =>
          dsimp only
          rw [if_pos rfl, ends_bind, ends_pure]
          dsimp only
          rw [ends_bind]
          apply ends_mono (gather_ends v.gathered)
          rintro outcome u ⟨hframe', hsignals', hstdin', rfl, hexited⟩
          have hall := hframe.trans hframe'
          have hsame := hsignals'.trans hsignals
          cases hg : v.gathered.result with
          | error e =>
              refine ⟨.none hall hsame, fun h => hstdin'.trans (hstdin h),
                by rintro forced confirmed ⟨⟩, fun confirmed gone hv => ?_⟩
              rw [hv.gathered] at hg
              cases hg
          | ok value =>
              refine ⟨.none hall hsame, fun h => hstdin'.trans (hstdin h), ?_, fun confirmed gone hv => ?_⟩
              · rintro forced confirmed ⟨⟩
                exact ⟨fun h => hexited (hg.trans h), fun _ => hsame, fun _ => .none hall hsame⟩
              · have heq := hanswer hv.closed
                rw [hv.confirmed] at heq
                cases hsup : supervised c with
                | false =>
                    rw [hsup] at heq
                    cases heq
                | true =>
                    rw [hsup, if_pos rfl] at heq
                    cases heq
                    rfl
      | false =>
          dsimp only
          rw [if_neg Bool.false_ne_true, ends_bind]
          apply ends_mono (interrupt_ends v)
          rintro outcome u ⟨hsends, hstdin', hgone, hok⟩
          have hall := hsends.after hframe hsignals
          cases outcome with
          | error e =>
              refine ⟨hall, fun h => hstdin'.trans (hstdin h),
                by rintro forced confirmed ⟨⟩, fun confirmed gone hv => ?_⟩
              have hcontra := hok hv.terminated hv.killed
              rw [hv.interrupted] at hcontra
              cases hcontra
          | ok forced =>
              dsimp only
              rw [ends_bind]
              apply ends_mono (gather_ends v.gathered)
              rintro outcome x ⟨hframe'', hsignals'', hstdin'', rfl, hexited⟩
              cases hg : v.gathered.result with
              | error e =>
                  refine ⟨hall.extend hframe'' hsignals'', fun h => hstdin''.trans (hstdin'.trans (hstdin h)),
                    by rintro forced confirmed ⟨⟩,
                    fun confirmed gone hv => ?_⟩
                  rw [hv.gathered] at hg
                  cases hg
              | ok value =>
                  refine ⟨hall.extend hframe'' hsignals'', fun h => hstdin''.trans (hstdin'.trans (hstdin h)),
                    ?_, fun confirmed gone hv => ?_⟩
                  · rintro forced confirmed ⟨⟩
                    refine ⟨fun h => hexited (hg.trans h), by rintro ⟨⟩, ?_⟩
                    rintro rfl
                    exact ((hgone rfl).after hframe hsignals).extend hframe'' hsignals''
                  · have hforced := hok hv.terminated hv.killed
                    have hconfirmed := hanswer hv.closed
                    rw [hv.interrupted] at hforced
                    rw [hv.confirmed] at hconfirmed
                    cases hforced
                    cases hsup : supervised c with
                    | false => rfl
                    | true =>
                        rw [hsup, if_pos rfl] at hconfirmed
                        cases hconfirmed
                        rfl

variable (limit w) in
/-- What a result says about how the process has run: it is its own only if it
has ended. -/
def Returned (s : State) (r : Result) : Prop :=
  s.exited = true ∧ w.first.result = .ok .exited ∧
    r = (w.returncode, outputText limit w.stdout, outputText limit w.stderr) ∨
    w.first.result = .ok .aborted ∧ r = (75, outputText limit w.stdout, w.abortReason) ∨
    r = (124, outputText limit w.stdout, "Command timed out".toList)

theorem Returned.frame {s t : State} {r : Result} (h : Returned limit w s r) (hframe : Frame s t) :
    Returned limit w t r :=
  h.imp (fun hended => ⟨hframe.exited hended.1, hended.2⟩) id

/-- The signals of one stop, or of one that begins at once with the second. -/
def Stops (s t : State) : Prop := Sends [.interrupt, .terminate, .kill] s t ∨ Sends [.terminate, .kill] s t

theorem watch_ends :
    Ends (watch c limit w) s (fun outcome t => Sends [.interrupt, .terminate, .kill] s t ∧
      (w.first.result ≠ .ok .aborted → t.signals = s.signals) ∧ (∀ r, outcome = .ok r → Returned limit w t r) ∧
        ∀ e, w.first.result = .error e → outcome = .error e) := by
  rw [watch, ends_bind]
  apply ends_mono (awaited_ends w.first)
  rintro outcome t ⟨hframe, hsignals, -, hfirst⟩
  have hstill : Sends [.interrupt, .terminate, .kill] s t := .none hframe hsignals
  rw [← hfirst]
  cases outcome with
  | error e =>
      refine ⟨hstill, fun _ => hsignals, by rintro r ⟨⟩, ?_⟩
      rintro e' ⟨⟩
      rfl
  | ok first =>
      cases first with
      | exited =>
          refine ⟨.none ⟨hframe.directory, hframe.started, fun _ => rfl⟩ hsignals, fun _ => hsignals, ?_,
            by rintro e ⟨⟩⟩
          rintro r ⟨⟩
          exact .inl ⟨rfl, hfirst.symm, rfl⟩
      | elapsed => exact ⟨hstill, fun _ => hsignals, by rintro r ⟨⟩, by rintro e ⟨⟩⟩
      | aborted =>
          dsimp only
          rw [ends_bind]
          apply ends_mono (stop_ends w.abortStop)
          rintro outcome u ⟨hsends, -⟩
          have hall := hsends.after hframe hsignals
          cases outcome with
          | error e => exact ⟨hall, fun hnot => absurd rfl hnot, by rintro r ⟨⟩, by rintro e' ⟨⟩⟩
          | ok stopped =>
              refine ⟨hall, fun hnot => absurd rfl hnot, ?_, by rintro e ⟨⟩⟩
              rintro r ⟨⟩
              exact .inr (.inl ⟨hfirst.symm, rfl⟩)

theorem handle_ends (e : Raised) :
    Ends (handle c limit w e) s (fun outcome t => Stops s t ∧ ∀ r, outcome = .ok r → Returned limit w t r) := by
  cases e with
  | timeout =>
      rw [handle, ends_bind]
      apply ends_mono (terminate_ends w.timeoutTerminated w.timeoutKilled)
      rintro outcome t ⟨hsends, -, -⟩
      cases outcome with
      | error e => exact ⟨.inr hsends, by rintro r ⟨⟩⟩
      | ok value =>
          dsimp only
          rw [ends_bind]
          apply ends_mono (gather_ends w.timeoutGathered)
          rintro outcome u ⟨hframe, hsignals, -, rfl, -⟩
          cases hg : w.timeoutGathered.result with
          | error e => exact ⟨.inr (hsends.extend hframe hsignals), by rintro r ⟨⟩⟩
          | ok value =>
              refine ⟨.inr (hsends.extend hframe hsignals), ?_⟩
              rintro r ⟨⟩
              exact .inr (.inr rfl)
  | cancelled =>
      rw [handle, ends_bind]
      apply ends_mono (stop_ends w.cancelStop)
      rintro outcome t ⟨hsends, -, -, -⟩
      cases outcome with
      | error e => exact ⟨.inl hsends, by rintro r ⟨⟩⟩
      | ok stopped => exact ⟨.inl hsends, by rintro r ⟨⟩⟩
  | commandCancelled forced confirmed => exact ⟨.inl (.none (Frame.refl s) rfl), by rintro r ⟨⟩⟩
  | failure message => exact ⟨.inl (.none (Frame.refl s) rfl), by rintro r ⟨⟩⟩

theorem Stops.extend {s t u : State} (h : Stops s t) (hframe : Frame t u) (hsignals : u.signals = t.signals) :
    Stops s u :=
  h.imp (fun hsends => hsends.extend hframe hsignals) (fun hsends => hsends.extend hframe hsignals)

/-- A stop after an abort may be followed by one after a cancellation, or by
the signals of the time limit. -/
theorem watched_ends :
    Ends (tryFinally (tryExcept (watch c limit w) (handle c limit w)) (awaited w.abortJoined)) s (fun outcome t =>
      (∃ u, Sends [.interrupt, .terminate, .kill] s u ∧
        (w.first.result ≠ .ok .aborted → u.signals = s.signals) ∧ Stops u t) ∧
        ∀ r, outcome = .ok r → Returned limit w t r) := by
  have hjoin : ∀ (outcome : Except Raised Result) (u : State), (∀ r, outcome = .ok r → Returned limit w u r) →
      Ends (awaited w.abortJoined) u (fun ended x => (Frame u x ∧ x.signals = u.signals) ∧
        ∀ r, (match ended with
          | .ok _ => outcome
          | .error e => .error e) = .ok r → Returned limit w x r) := by
    intro outcome u hreturned
    apply ends_mono (awaited_ends w.abortJoined)
    rintro ended x ⟨hframe, hsignals, -, -⟩
    refine ⟨⟨hframe, hsignals⟩, fun r hr => ?_⟩
    cases ended with
    | ok value => exact (hreturned r hr).frame hframe
    | error e => cases hr
  rw [ends_tryFinally, ends_tryExcept]
  apply ends_mono watch_ends
  rintro outcome t ⟨hsends, hquiet, hreturned, -⟩
  cases outcome with
  | ok r =>
      apply ends_mono (hjoin (.ok r) t hreturned)
      rintro ended x ⟨⟨hframe, hsignals⟩, hreturned'⟩
      have hrest : Stops t x := .inl (.none hframe hsignals)
      cases ended with
      | ok value => exact ⟨⟨t, hsends, hquiet, hrest⟩, hreturned'⟩
      | error e => exact ⟨⟨t, hsends, hquiet, hrest⟩, hreturned'⟩
  | error e =>
      apply ends_mono (handle_ends e)
      rintro outcome u ⟨hstops, hreturned'⟩
      apply ends_mono (hjoin outcome u hreturned')
      rintro ended x ⟨⟨hframe, hsignals⟩, hreturned''⟩
      have hrest := hstops.extend hframe hsignals
      cases ended with
      | ok value => exact ⟨⟨t, hsends, hquiet, hrest⟩, hreturned''⟩
      | error e' => exact ⟨⟨t, hsends, hquiet, hrest⟩, hreturned''⟩

/-- Nothing has been started. -/
structure Unstarted (s : State) : Prop where
  started : s.started = none
  exited : s.exited = false
  stdin : s.stdin = false
  signals : s.signals = []

theorem writeSecret_ends {root : Text} {file : (Text × Text) × Nat} (h : Unstarted s) :
    Ends (writeSecret w root file) s
      (fun outcome t => Unstarted t ∧ (w.fileWritten file.2 = .ok () → outcome = .ok ())) := by
  rw [writeSecret, ends_bind, ends_effect]
  cases hw : w.fileWritten file.2 with
  | error e => exact ⟨h, by rintro ⟨⟩⟩
  | ok value => exact ⟨⟨h.started, h.exited, h.stdin, h.signals⟩, fun _ => rfl⟩

variable (w) in
/-- Nothing is raised while the secrets are written. -/
structure Prepared : Prop where
  directory : w.directoryCreated.isOk = true
  files : ∀ index, w.fileWritten index = .ok ()

theorem writeSecrets_ends {root : Text} {files : List ((Text × Text) × Nat)} (h : Unstarted s) :
    Ends (forEach files (writeSecret w root)) s
      (fun outcome t => Unstarted t ∧ ((∀ index, w.fileWritten index = .ok ()) → outcome = .ok ())) := by
  have hbody : ∀ (file : (Text × Text) × Nat) (rest : List ((Text × Text) × Nat)) (t : State), Unstarted t →
    Ends (writeSecret w root file) t (fun outcome u =>
      (outcome = .ok () ∧ Unstarted u) ∨ ∃ e, outcome = .error e ∧ Unstarted u ∧ ¬∀ index,
        w.fileWritten index = .ok ()) := by
    intro file rest t ht
    apply ends_mono (writeSecret_ends ht)
    rintro outcome u ⟨hu, hok⟩
    cases outcome with
    | ok value => exact .inl ⟨rfl, hu⟩
    | error e =>
        refine .inr ⟨e, rfl, hu, fun hall => ?_⟩
        cases hok (hall file.2)
  apply ends_mono (ends_forEach (I := fun _ t => Unstarted t)
    (E := fun _ t => Unstarted t ∧ ¬∀ index, w.fileWritten index = .ok ()) hbody h)
  rintro outcome t (⟨rfl, ht⟩ | ⟨e, rfl, ht, hnot⟩)
  · exact ⟨ht, fun _ => rfl⟩
  · exact ⟨ht, fun hall => absurd hall hnot⟩

theorem prepare_ends (h : Unstarted s) :
    Ends (prepare c w) s (fun outcome t => Unstarted t ∧ (Prepared w → outcome.isOk = true)) := by
  rw [prepare]
  cases c.tempFiles.isEmpty with
  | true => exact ⟨h, fun _ => rfl⟩
  | false =>
      rw [if_neg Bool.false_ne_true, ends_bind, ends_effect]
      cases hdir : w.directoryCreated with
      | error e =>
          refine ⟨h, fun hp => ?_⟩
          have hok := hp.directory
          rw [hdir] at hok
          cases hok
      | ok root =>
          dsimp only
          have hempty : Unstarted { s with directory := some [] } := ⟨h.started, h.exited, h.stdin, h.signals⟩
          rw [ends_bind, ends_update]
          dsimp only
          rw [ends_bind]
          apply ends_mono (writeSecrets_ends hempty)
          rintro outcome t ⟨ht, hok⟩
          cases outcome with
          | error e =>
              refine ⟨ht, fun hp => ?_⟩
              cases hok hp.files
          | ok value => exact ⟨ht, fun _ => rfl⟩

theorem unstarted_untouched : Unstarted untouched := ⟨rfl, rfl, rfl, rfl⟩

theorem sendPayload_ends :
    Ends (sendPayload c w) s
      (fun outcome t => Frame s t ∧ t.signals = s.signals ∧ (w.payload.result = .ok () → outcome = .ok ())) := by
  rw [sendPayload, ends_when]
  refine ⟨fun _ => ?_, fun _ => ⟨Frame.refl s, rfl, fun _ => rfl⟩⟩
  rw [ends_bind]
  apply ends_mono (awaited_ends w.payload)
  rintro outcome t ⟨hframe, hsignals, -, rfl⟩
  cases w.payload.result with
  | error e => exact ⟨hframe, hsignals, by rintro ⟨⟩⟩
  | ok value =>
      dsimp only
      rw [ends_when]
      exact ⟨fun _ => ⟨⟨hframe.directory, hframe.started, hframe.exited⟩, hsignals, fun _ => rfl⟩,
        fun _ => ⟨hframe, hsignals, fun _ => rfl⟩⟩

variable (w) in
/-- The signals of a run, before the one that the last block may send: those of
the stop of an abort, if there was one, and then those of one more stop or of
the time limit, each from the mildest on. -/
def Escalates (signals : List Signal) : Prop :=
  ∃ first second, signals = first ++ second ∧ first <+: [.interrupt, .terminate, .kill] ∧
    (w.first.result ≠ .ok .aborted → first = []) ∧
    (second <+: [.interrupt, .terminate, .kill] ∨ second <+: [.terminate, .kill])

theorem escalates_nil : Escalates w [] := ⟨[], [], rfl, List.nil_prefix, fun _ => rfl, .inl List.nil_prefix⟩

theorem escalates_of_sends {s u t : State} (h : s.signals = []) (hfirst : Sends [.interrupt, .terminate, .kill] s u)
    (hquiet : w.first.result ≠ .ok .aborted → u.signals = s.signals) (hsecond : Stops u t) : Escalates w t.signals := by
  obtain ⟨first, hprefix, hu, -⟩ := hfirst.signals
  rw [h, List.nil_append] at hu
  have hnone : w.first.result ≠ .ok .aborted → first = [] := fun hnot => hu.symm.trans ((hquiet hnot).trans h)
  rcases hsecond with hsecond | hsecond
  · obtain ⟨second, hprefix', ht, -⟩ := hsecond.signals
    exact ⟨first, second, by rw [ht, hu], hprefix, hnone, .inl hprefix'⟩
  · obtain ⟨second, hprefix', ht, -⟩ := hsecond.signals
    exact ⟨first, second, by rw [ht, hu], hprefix, hnone, .inr hprefix'⟩

theorem run_ends :
    Ends (run c limit w) untouched
      (fun outcome t => Escalates w t.signals ∧ ∀ r, outcome = .ok r → Returned limit w t r) := by
  rw [run, ends_bind]
  apply ends_mono (prepare_ends unstarted_untouched)
  rintro outcome t ⟨ht, -⟩
  cases outcome with
  | error e => exact ⟨ht.signals ▸ escalates_nil, by rintro r ⟨⟩⟩
  | ok argv =>
      dsimp only
      rw [ends_bind, spawn, ends_bind, ends_effect]
      cases w.spawned with
      | error e => exact ⟨ht.signals ▸ escalates_nil, by rintro r ⟨⟩⟩
      | ok value =>
          dsimp only
          rw [ends_update]
          dsimp only
          rw [ends_bind]
          apply ends_mono sendPayload_ends
          rintro outcome u ⟨-, hsignals, -⟩
          have hnone : u.signals = [] := hsignals.trans ht.signals
          cases outcome with
          | error e => exact ⟨hnone ▸ escalates_nil, by rintro r ⟨⟩⟩
          | ok value =>
              apply ends_mono watched_ends
              rintro outcome x ⟨⟨y, hfirst, hquiet, hsecond⟩, hreturned⟩
              exact ⟨escalates_of_sends hnone hfirst hquiet hsecond, hreturned⟩

theorem killRest_ends :
    Ends (killRest w) s (fun outcome t => Frame s t ∧ t.stdin = s.stdin ∧
      t.signals = (if s.alive then s.signals ++ [.kill] else s.signals) ∧
      (s.alive = true → outcome = w.last.result.map (fun _ => ())) ∧ (s.alive = false → outcome = .ok ())) := by
  rw [killRest, ends_bind, ends_read]
  dsimp only
  rw [ends_when]
  refine ⟨fun halive => ?_, fun hdead => ⟨Frame.refl s, rfl, by rw [hdead]; rfl, fun halive => ?_, fun _ => rfl⟩⟩
  · rw [ends_bind]
    apply ends_mono (waitAfterSignal_ends .kill w.last)
    rintro outcome t ⟨hframe, hsent, hstdin, rfl, -⟩
    cases w.last.result with
    | error e => exact ⟨hframe, hstdin, hsent, fun _ => rfl, fun hdead => absurd (halive.symm.trans hdead) (by simp)⟩
    | ok value => exact ⟨hframe, hstdin, hsent, fun _ => rfl, fun hdead => absurd (halive.symm.trans hdead) (by simp)⟩
  · rw [hdead] at halive
    cases halive

/-- What `execute` leaves behind. -/
structure Settled (limit : Option Nat) (w : World) (outcome : Except Raised Result) (s : State) : Prop where
  /-- No process of the command is left that was not at least killed. -/
  process : s.started.isSome = true → s.exited = true ∨ s.signals.getLast? = some .kill
  input : s.stdin = false
  /-- The secrets are gone, unless the very last wait was broken off. -/
  directory : s.directory = none ∨
    ∃ e, outcome = .error e ∧ w.last.result = .error e ∧ s.started.isSome = true ∧ s.signals.getLast? = some .kill
  signals : ∃ before, Escalates w before ∧ (s.signals = before ∨ s.signals = before ++ [.kill])
  returned : ∀ r, outcome = .ok r → s.directory = none ∧ Returned limit w s r

theorem cleanup_ends {outcome : Except Raised Result} (hsignals : Escalates w s.signals)
    (hreturned : ∀ r, outcome = .ok r → Returned limit w s r) :
    Ends (cleanup w) s (fun ended t => Settled limit w (match ended with
      | .ok _ => outcome
      | .error e => .error e) t ∧
        (s.exited = true → ended = .ok () ∧ t.exited = true ∧ t.signals = s.signals ∧ t.directory = none)) := by
  rw [cleanup, ends_bind, ends_update]
  dsimp only
  rw [ends_bind]
  apply ends_mono killRest_ends
  rintro ended t ⟨hframe, hstdin, hsent, hlast, hnone⟩
  cases halive : s.alive with
  | true =>
      have halive' : ({ s with stdin := false } : State).alive = true := halive
      rw [halive', if_pos rfl] at hsent
      obtain ⟨hstarted, hexited⟩ := Bool.and_eq_true_iff.mp halive
      have hkill : t.signals.getLast? = some .kill := by rw [hsent, List.getLast?_concat]
      have hrunning : ¬s.exited = true := by simpa using hexited
      cases ended with
      | error e =>
          refine ⟨⟨fun _ => .inr hkill, hstdin, .inr ⟨e, rfl, ?_, hframe.started ▸ hstarted, hkill⟩,
            ⟨s.signals, hsignals, .inr hsent⟩,
            by rintro r ⟨⟩⟩, fun hexited' => absurd hexited' hrunning⟩
          have heq := hlast halive'
          cases hresult : w.last.result with
          | ok value =>
              rw [hresult] at heq
              cases heq
          | error e' =>
              rw [hresult] at heq
              cases heq
              rfl
      | ok value =>
          refine ⟨⟨fun _ => .inr hkill, hstdin, .inl rfl, ⟨s.signals, hsignals, .inr hsent⟩, fun r hr => ?_⟩,
            fun hexited' => absurd hexited' hrunning⟩
          exact ⟨rfl, ((hreturned r hr).imp (fun hended => ⟨hframe.exited hended.1, hended.2⟩) id)⟩
  | false =>
      have hdead : ({ s with stdin := false } : State).alive = false := halive
      rw [hdead, if_neg Bool.false_ne_true] at hsent
      rw [hnone hdead]
      have hover : t.started.isSome = true → s.exited = true := by
        intro hstarted
        rw [State.alive, ← hframe.started, hstarted, Bool.true_and] at halive
        simpa using halive
      refine ⟨⟨fun hstarted => .inl (hframe.exited (hover hstarted)), hstdin, .inl rfl,
        ⟨s.signals, hsignals, .inl hsent⟩, fun r hr => ?_⟩,
        fun hexited => ⟨rfl, hframe.exited hexited, hsent, rfl⟩⟩
      exact ⟨rfl, (hreturned r hr).imp (fun hended => ⟨hframe.exited hended.1, hended.2⟩) id⟩

/-- Whatever is raised at whichever await: `execute` leaves no process that was
not killed, and no secret on the disk unless the wait after that was broken
off, sends the signals of each stop from the mildest on, and returns the exit
code only of a process that has ended. -/
theorem execute_settled (c : Command) (limit : Option Nat) (w : World) :
    Ends (execute c limit w) untouched (Settled limit w) := by
  rw [execute, ends_tryFinally]
  apply ends_mono run_ends
  rintro outcome t ⟨hsignals, hreturned⟩
  apply ends_mono (cleanup_ends hsignals hreturned)
  rintro ended u ⟨hsettled, -⟩
  cases ended with
  | ok value => exact hsettled
  | error e => exact hsettled

/-- What a stop that is not disturbed makes of a process: it ends, and the
signals are those that were needed. -/
structure Cancelled (confirmed gone : Bool) (outcome : Except Raised Result) (s : State) : Prop where
  outcome : outcome = .error (.commandCancelled (!confirmed && !gone) confirmed)
  exited : s.exited = true
  confirmed : confirmed = true → s.signals = []
  gone : gone = true → s.signals <+: [.interrupt]
  signals : s.signals <+: [.interrupt, .terminate, .kill]

theorem Cancelled.frame {confirmed gone : Bool} {outcome : Except Raised Result} {s t : State}
    (h : Cancelled confirmed gone outcome s) (hframe : Frame s t) (hsignals : t.signals = s.signals) :
    Cancelled confirmed gone outcome t where
  outcome := h.outcome
  exited := hframe.exited h.exited
  confirmed := fun hc => hsignals.trans (h.confirmed hc)
  gone := fun hg => hsignals ▸ h.gone hg
  signals := hsignals ▸ h.signals

theorem Sends.prefix_of_nil {plan : List Signal} {s t : State} (h : Sends plan s t) (hnone : s.signals = []) :
    t.signals <+: plan := by
  obtain ⟨sent, hprefix, hsent, -⟩ := h.signals
  rw [hsent, hnone]
  exact hprefix

theorem handle_cancelled {confirmed gone : Bool} (hstop : Undisturbed w.cancelStop confirmed gone)
    (hnone : s.signals = []) :
    Ends (handle c limit w .cancelled) s (Cancelled (supervised c && confirmed) gone) := by
  rw [handle, ends_bind]
  apply ends_mono (stop_ends w.cancelStop)
  rintro outcome t ⟨hsends, -, hstopped, hanswer⟩
  have hout := hanswer confirmed gone hstop
  subst hout
  obtain ⟨hexited, hconfirmed, hgone⟩ := hstopped _ _ rfl
  refine ⟨rfl, hexited hstop.gathered, fun hc => (hconfirmed hc).trans hnone, ?_, hsends.prefix_of_nil hnone⟩
  rintro rfl
  refine (hgone ?_).prefix_of_nil hnone
  rw [Bool.not_true, Bool.and_false]

/-- A command that is cancelled while it runs: if the wrapper confirms its end,
no signal is sent at all, and if an interrupt is enough, nothing stronger. -/
theorem execute_cancelled {confirmed gone : Bool} (hprepared : Prepared w) (hspawned : w.spawned = .ok ())
    (hpayload : w.payload.result = .ok ()) (hfirst : w.first.result = .error .cancelled)
    (hstop : Undisturbed w.cancelStop confirmed gone) (hjoined : w.abortJoined.result = .ok ()) :
    Ends (execute c limit w) untouched
      (fun outcome s => Cancelled (supervised c && confirmed) gone outcome s ∧ s.directory = none) := by
  have hrun : Ends (run c limit w) untouched (Cancelled (supervised c && confirmed) gone) := by
    rw [run, ends_bind]
    apply ends_mono (prepare_ends unstarted_untouched)
    rintro outcome t ⟨ht, hok⟩
    have hprepared' := hok hprepared
    cases outcome with
    | error e => cases hprepared'
    | ok argv =>
        dsimp only
        rw [ends_bind, spawn, ends_bind, ends_effect, hspawned]
        dsimp only
        rw [ends_update]
        dsimp only
        rw [ends_bind]
        apply ends_mono sendPayload_ends
        rintro outcome u ⟨-, hsignals, hsent⟩
        rw [hsent hpayload]
        dsimp only
        rw [ends_tryFinally, ends_tryExcept]
        apply ends_mono watch_ends
        rintro outcome x ⟨-, hquiet, -, hraised⟩
        have hnone : x.signals = [] := (hquiet (by rw [hfirst]; rintro ⟨⟩)).trans (hsignals.trans ht.signals)
        rw [hraised _ hfirst]
        apply ends_mono (handle_cancelled hstop hnone)
        intro outcome y hcancelled
        apply ends_mono (awaited_ends w.abortJoined)
        rintro ended z ⟨hframe, hsame, -, rfl⟩
        rw [hjoined]
        exact hcancelled.frame hframe hsame
  rw [execute, ends_tryFinally]
  apply ends_mono hrun
  intro outcome t hcancelled
  have hescalates : Escalates w t.signals :=
    ⟨[], t.signals, rfl, List.nil_prefix, fun _ => rfl, .inl hcancelled.signals⟩
  have hraised : ∀ r, outcome = .ok r → Returned limit w t r := by
    intro r hr
    cases hr.symm.trans hcancelled.outcome
  apply ends_mono (cleanup_ends hescalates hraised)
  rintro ended u ⟨-, hdone⟩
  obtain ⟨rfl, hexited, hsignals, hdirectory⟩ := hdone hcancelled.exited
  refine ⟨⟨hcancelled.outcome, hexited, ?_, ?_, ?_⟩, hdirectory⟩
  · rw [hsignals]
    exact hcancelled.confirmed
  · rw [hsignals]
    exact hcancelled.gone
  · rw [hsignals]
    exact hcancelled.signals

section Runs

/-- A stop in which the wrapper does not answer and an interrupt is enough. -/
def interruptedStop : Stopping :=
  ⟨⟨false, .ok ()⟩, ⟨false, .ok false⟩, ⟨true, .ok true⟩, ⟨true, .ok true⟩, ⟨true, .ok true⟩, ⟨true, .ok true⟩⟩

def cancelledWorld : World :=
  { directoryCreated := .ok "/tmp/bbm-command-1".toList
    fileWritten := fun _ => .ok ()
    spawned := .ok ()
    payload := ⟨false, .ok ()⟩
    first := ⟨false, .error .cancelled⟩
    abortStop := interruptedStop
    cancelStop := interruptedStop
    timeoutTerminated := ⟨true, .ok true⟩
    timeoutKilled := ⟨true, .ok true⟩
    timeoutGathered := ⟨true, .ok true⟩
    abortJoined := ⟨true, .ok ()⟩
    last := ⟨true, .ok true⟩
    returncode := 0
    abortReason := []
    stdout := []
    stderr := [] }

def sshCommand : Command :=
  ⟨["ssh".toList, "-i".toList, "__KEY__".toList], "ssh".toList, some [10], none,
    [("__KEY__".toList, "secret".toList)], true⟩

theorem execute_cancelled_ssh :
    Ends (execute sshCommand none cancelledWorld) untouched
      (fun outcome s => Cancelled false true outcome s ∧ s.directory = none) :=
  execute_cancelled ⟨rfl, fun _ => rfl⟩ rfl rfl rfl ⟨rfl, rfl, rfl, rfl, rfl, rfl⟩ rfl

example : ((execute sshCommand none cancelledWorld) untouched).2 =
    ⟨none, some ["ssh".toList, "-i".toList, "/tmp/bbm-command-1/secret-1".toList], true, false, [.interrupt]⟩ := by rfl

end Runs

end BorgManager.CommandExecution
