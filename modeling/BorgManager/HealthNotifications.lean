import Mathlib.Data.List.Range

namespace BorgManager.HealthNotifications

inductive HealthStatus
  | ok | degraded
  deriving DecidableEq

inductive Language
  | de | en
  deriving DecidableEq

inductive Channel
  | email | webhook | telegram
  deriving DecidableEq

/-- The health of the core components, as it is observed. -/
structure Payload where
  status : String
  database : Bool
  authentication : Bool
  scheduler : Bool
  repositorySshd : Bool

/-- What the notification settings say about health messages. -/
structure Settings where
  enabled : Bool
  instanceName : String
  language : Language
  systemHealthNotifications : Bool
  smtpEnabled : Bool
  webhookEnabled : Bool
  telegramEnabled : Bool

/-- `NotificationMessage` -/
structure Message where
  eventType : String
  severity : String
  title : String
  body : String

/-- The dictionary in the state file; a key may be missing. -/
structure HealthState where
  observedStatus : Option HealthStatus
  observedCount : Option Nat
  lastObservedAt : Option String
  lastComponents : List (String × Bool)
  lastNotifiedStatus : Option HealthStatus
  lastNotifiedAt : Option String

def HealthState.empty : HealthState := ⟨none, none, none, [], none, none⟩

/-- The state file, of which only a dictionary is read. -/
inductive StateFile
  | missing
  | unreadable
  | otherValue
  | holds (state : HealthState)

/-- `_load_health_notification_state` -/
def StateFile.load : StateFile → HealthState
  | .holds state => state
  | .missing | .unreadable | .otherValue => .empty

def components (payload : Payload) : List (String × Bool) :=
  [("database", payload.database), ("authentication", payload.authentication), ("scheduler", payload.scheduler),
    ("repository_sshd", payload.repositorySshd)]

def componentLabel (language : Language) (key : String) : String :=
  let labels :=
    [("database", "Datenbank", "Database"),
      ("authentication", "Authentifizierung / Security-Store", "Authentication / security store"),
      ("scheduler", "Scheduler", "Scheduler"), ("repository_sshd", "Repository-SSH-Dienst", "Repository SSH service")]
  match labels.lookup key, language with
  | some names, .de => names.1
  | some names, .en => names.2
  | none, _ => ""

/-- `_health_component_lines` -/
def healthComponentLines (payload : Payload) (language : Language) : List String :=
  (components payload).map (fun component =>
    "- " ++ componentLabel language component.1 ++ ": " ++
      if component.2 then "OK" else if language = .en then "ERROR" else "FEHLER")

/-- `build_system_health_message`, with the time of the check. -/
def buildSystemHealthMessage (settings : Settings) (payload : Payload) (restored : Bool) (timestamp : String) :
    Message :=
  let english := settings.language == .en
  let label :=
    if restored then (if english then "System status restored" else "Systemstatus wiederhergestellt")
    else if english then "System status degraded" else "Systemstatus eingeschränkt"
  let intro :=
    if restored then
      (if english then "All monitored BBM core components are available again."
        else "Alle überwachten BBM-Kernkomponenten sind wieder verfügbar.")
    else if english then "At least one monitored BBM core component is unavailable."
    else "Mindestens eine überwachte BBM-Kernkomponente ist nicht verfügbar."
  let lines := [intro, "", if english then "Components:" else "Komponenten:"] ++
    healthComponentLines payload settings.language ++
    ["", (if english then "Checked: " else "Geprüft: ") ++ timestamp]
  { eventType := if restored then "system_health_restored" else "system_health_degraded"
    severity := if restored then "success" else "error"
    title := "[" ++ settings.instanceName ++ "] " ++ label
    body := String.intercalate "\n" lines }

/-- The channels that are enabled, in the order in which they are tried. -/
def Settings.channels (settings : Settings) : List Channel :=
  (if settings.smtpEnabled then [.email] else []) ++ (if settings.webhookEnabled then [.webhook] else []) ++
    if settings.telegramEnabled then [.telegram] else []

/-- The secrets that an error text must not show. -/
inductive SecretName
  | smtpPassword | webhookUrl | telegramToken
  deriving DecidableEq

def secretNames : List SecretName := [.smtpPassword, .webhookUrl, .telegramToken]

/-- `_safe_error` looks for the stored secrets in the text of an error; whether
it returns, given which of them can be decrypted. -/
def safeError (readable : SecretName → Bool) : Bool := secretNames.all readable

/-- A delivery and whether its status is `success`. -/
structure Delivery where
  channel : Channel
  success : Bool

/-- One observation: the arguments of the call, the settings that it finds,
the times that it reads, whether the state can be saved before and after the
delivery, the channels that deliver, and the secrets that can be decrypted
when the failure of a channel is written down. One of the channels works. -/
structure Observation where
  payload : Payload
  confirmations : Int
  settings : Settings
  now : String
  checkedAt : String
  notifiedAt : String
  saves : Bool
  savesAgain : Bool
  delivers : Channel → Bool
  readable : Channel → SecretName → Bool
  working : settings.channels.any delivers = true

/-- The deliveries of a dispatch, and whether it ends with an error. -/
structure Dispatch where
  deliveries : List Delivery
  raised : Bool

/-- The loop of `dispatch_message`. The handler of a failed delivery may fail
itself; that ends the loop. -/
def dispatchChannels (o : Observation) : List Channel → Dispatch
  | [] => ⟨[], false⟩
  | channel :: channels =>
      if o.delivers channel then
        let rest := dispatchChannels o channels
        { rest with deliveries := ⟨channel, true⟩ :: rest.deliveries }
      else if safeError (o.readable channel) then
        let rest := dispatchChannels o channels
        { rest with deliveries := ⟨channel, false⟩ :: rest.deliveries }
      else ⟨[], true⟩

def dispatchMessage (o : Observation) : Dispatch :=
  if o.settings.enabled then dispatchChannels o o.settings.channels else ⟨[], false⟩

def Observation.observed (o : Observation) : HealthStatus := if o.payload.status = "ok" then .ok else .degraded

def Observation.required (o : Observation) : Nat := (max 1 o.confirmations).toNat

/-- The state as it is saved first. -/
def observe (state : HealthState) (o : Observation) : HealthState :=
  { state with
    observedStatus := some o.observed
    observedCount := some (if state.observedStatus = some o.observed then state.observedCount.getD 0 + 1 else 1)
    lastObservedAt := some o.now
    lastComponents := components o.payload }

/-- What a call leaves in the file, the results that it returns unless it ends
with an error, and the message that it sends. -/
structure Outcome where
  file : StateFile
  results : Option (List Delivery)
  message : Option Message

/-- `notify_system_health_observation` -/
def notify (file : StateFile) (o : Observation) : Outcome :=
  let state := observe file.load o
  if o.saves = false then ⟨file, none, none⟩
  else
    let saved := StateFile.holds state
    if state.observedCount.getD 0 < o.required ∨ ¬ o.settings.enabled ∨ ¬ o.settings.systemHealthNotifications then
      ⟨saved, some [], none⟩
    else
      let restored := o.observed == .ok
      let shouldSend := if restored then state.lastNotifiedStatus == some .degraded
        else state.lastNotifiedStatus != some .degraded
      if shouldSend then
        let dispatch := dispatchMessage o
        let message :=
          if dispatch.deliveries.any (·.success) then
            some (buildSystemHealthMessage o.settings o.payload restored o.checkedAt)
          else none
        if dispatch.raised then ⟨saved, none, message⟩
        else if dispatch.deliveries.isEmpty then ⟨saved, some [], message⟩
        else if o.savesAgain then
          ⟨.holds { saved.load with lastNotifiedStatus := some o.observed, lastNotifiedAt := some o.notifiedAt },
            some dispatch.deliveries, message⟩
        else ⟨saved, none, message⟩
      else ⟨saved, some [], none⟩

/-- What happens to the process; a restart keeps nothing but the file. -/
inductive Event
  | observation (o : Observation)
  | restart

def step (run : StateFile × List Message) : Event → StateFile × List Message
  | .observation o => ((notify run.1 o).file, run.2 ++ (notify run.1 o).message.toList)
  | .restart => run

/-- The file and the messages sent, from the first start on. -/
def runFrom (events : List Event) : StateFile × List Message := events.foldl step (.missing, [])

def messages (events : List Event) : List Message := (runFrom events).2

/-- The message of a call after some events. -/
def sentAt (events : List Event) (o : Observation) : Option Message := (notify (runFrom events).1 o).message

def Event.status : Event → Option HealthStatus
  | .observation o => some o.observed
  | .restart => none

def statuses (events : List Event) : List HealthStatus := events.filterMap Event.status

/-- The status that a message announces. -/
def announced (message : Message) : HealthStatus :=
  if message.eventType = "system_health_restored" then .ok else .degraded

/-- The status announced last; before the first message it counts as ok. -/
def lastAnnounced (sent : List Message) : HealthStatus := (sent.getLast?.map announced).getD .ok

/-- With this observation the last ones agree. -/
def Confirmed (events : List Event) (o : Observation) : Prop :=
  List.replicate o.required o.observed <:+ statuses events ++ [o.observed]

/-- Degraded and restored in turn. -/
def Alternates (eventTypes : List String) : Prop :=
  eventTypes = (List.range eventTypes.length).map (fun i =>
    if i % 2 = 0 then "system_health_degraded" else "system_health_restored")

/-- How often a status has been observed without another one since. -/
def streak (s : HealthStatus) (l : List HealthStatus) : Nat := (l.reverse.takeWhile (· = s)).length

theorem streak_concat (s t : HealthStatus) (l : List HealthStatus) :
    streak s (l ++ [t]) = if t = s then streak s l + 1 else 0 := by
  rw [streak, List.reverse_append, List.reverse_singleton, List.singleton_append, List.takeWhile_cons]
  by_cases h : t = s <;> simp [h, streak]

theorem replicate_prefix {s : HealthStatus} {n : Nat} {l : List HealthStatus} :
    List.replicate n s <+: l ↔ n ≤ (l.takeWhile (· = s)).length := by
  induction l generalizing n with
  | nil => cases n <;> simp
  | cons t l ih =>
      cases n with
      | zero => simp
      | succ n =>
          rw [List.replicate_succ, List.cons_prefix_cons, ih, List.takeWhile_cons]
          by_cases h : t = s
          · simp [h]
          · simp [h, Ne.symm h]

/-- The last observations agree exactly if their status has been observed often enough. -/
theorem replicate_suffix {s : HealthStatus} {n : Nat} {l : List HealthStatus} :
    List.replicate n s <:+ l ↔ n ≤ streak s l := by
  rw [← List.reverse_prefix, List.reverse_replicate, replicate_prefix, streak]

theorem announced_build (settings : Settings) (payload : Payload) (status : HealthStatus) (timestamp : String) :
    announced (buildSystemHealthMessage settings payload (status == .ok) timestamp) = status := by
  cases status <;> simp [announced, buildSystemHealthMessage]

theorem Alternates.last {sent : List Message} (h : Alternates (sent.map (·.eventType))) :
    lastAnnounced sent = if sent.length % 2 = 0 then .ok else .degraded := by
  cases sent using List.reverseRecOn with
  | nil => rfl
  | append_singleton sent message =>
      rw [Alternates, List.map_append, List.map_singleton, List.length_append, List.length_map, List.length_singleton,
        List.range_succ, List.map_append, List.map_singleton] at h
      have hlast := List.singleton_inj.mp (List.append_inj_right h (by simp))
      rw [lastAnnounced, List.getLast?_concat, Option.map_some, Option.getD_some, announced, hlast, List.length_append,
        List.length_singleton]
      by_cases heven : sent.length % 2 = 0
      · have hodd : ¬ (sent.length + 1) % 2 = 0 := by omega
        simp [heven, hodd]
      · have hodd : (sent.length + 1) % 2 = 0 := by omega
        simp [heven, hodd]

/-- The first status that is announced is degraded, and every other one is new. -/
theorem Alternates.concat {sent : List Message} (h : Alternates (sent.map (·.eventType))) {message : Message}
    {s : HealthStatus} (hstatus : message.eventType = if s = .ok then "system_health_restored"
      else "system_health_degraded") (hne :
    s ≠ lastAnnounced sent) : Alternates ((sent ++ [message]).map (·.eventType)) := by
  rw [h.last] at hne
  rw [Alternates, List.map_append, List.map_singleton, List.length_append, List.length_map, List.length_singleton,
    List.range_succ, List.map_append, List.map_singleton, hstatus]
  have hprevious : sent.map (·.eventType) = (List.range sent.length).map (fun i =>
      if i % 2 = 0 then "system_health_degraded" else "system_health_restored") := by
    rw [Alternates, List.length_map] at h
    exact h
  rw [← hprevious]
  by_cases heven : sent.length % 2 = 0
  · rw [if_pos heven] at hne ⊢
    rw [if_neg hne]
  · rw [if_neg heven] at hne ⊢
    cases s with
    | ok => rw [if_pos rfl]
    | degraded => exact absurd rfl hne

theorem should_send (s : HealthStatus) (last : Option HealthStatus) :
    (if (s == .ok) = true then last == some .degraded else last != some .degraded) = true ↔ s ≠ last.getD .ok := by
  rcases last with - | last
  · cases s <;> decide
  · cases s <;> cases last <;> decide

/-- A call sends a message exactly if notifications are enabled, its status has
been observed often enough and was not announced last. -/
def Sends (state : HealthState) (o : Observation) : Prop :=
  o.settings.enabled = true ∧ o.settings.systemHealthNotifications = true ∧
    o.required ≤ (observe state o).observedCount.getD 0 ∧ o.observed ≠ state.lastNotifiedStatus.getD .ok

/-- The state is saved, and when there is something to send the failure of a
channel can be written down and the state saved again. -/
def Undisturbed (state : HealthState) (o : Observation) : Prop :=
  o.saves = true ∧ (Sends state o → o.savesAgain = true ∧
    ∀ channel ∈ o.settings.channels, o.delivers channel = false → safeError (o.readable channel) = true)

theorem dispatchChannels_eq {o : Observation} {channels : List Channel}
    (h : ∀ channel ∈ channels, o.delivers channel = false → safeError (o.readable channel) = true) :
    dispatchChannels o channels = ⟨channels.map (fun channel => ⟨channel, o.delivers channel⟩), false⟩ := by
  induction channels with
  | nil => rfl
  | cons channel channels ih =>
      rw [dispatchChannels, ih (fun c hc => h c (List.mem_cons_of_mem _ hc)), List.map_cons]
      cases hdelivers : o.delivers channel with
      | true => rfl
      | false =>
          rw [h channel (List.mem_cons_self ..) hdelivers]
          rfl

theorem notify_sends {file : StateFile} {o : Observation} (hquiet : Undisturbed file.load o) (h : Sends file.load o) :
    (notify file o).message = some (buildSystemHealthMessage o.settings o.payload (o.observed == .ok) o.checkedAt) ∧
      (notify file o).file.load =
        { observe file.load o with lastNotifiedStatus := some o.observed, lastNotifiedAt := some o.notifiedAt } := by
  obtain ⟨hsaves, hagain⟩ := hquiet
  obtain ⟨hsavesAgain, hchannels⟩ := hagain h
  obtain ⟨henabled, hhealth, hcount, hne⟩ := h
  have hshould : (if o.observed == .ok then (observe file.load o).lastNotifiedStatus == some .degraded
      else (observe file.load o).lastNotifiedStatus != some .degraded) = true := (should_send _ _).mpr hne
  have hdispatch : dispatchMessage o = ⟨o.settings.channels.map (fun channel => ⟨channel, o.delivers channel⟩),
      false⟩ := by
    rw [dispatchMessage, if_pos henabled, dispatchChannels_eq hchannels]
  have hdelivered : (o.settings.channels.map (fun channel => (⟨channel, o.delivers channel⟩ : Delivery))).any
    (·.success) =
      true := by
    rw [List.any_map]
    exact o.working
  have hnonempty : (o.settings.channels.map
      (fun channel => (⟨channel, o.delivers channel⟩ : Delivery))).isEmpty = false := by
    cases hresults : o.settings.channels.map (fun channel => (⟨channel, o.delivers channel⟩ : Delivery)) with
    | nil => rw [hresults] at hdelivered; cases hdelivered
    | cons result results => rfl
  have hpass : ¬ ((observe file.load o).observedCount.getD 0 < o.required ∨ ¬ o.settings.enabled = true ∨
      ¬ o.settings.systemHealthNotifications = true) := by
    rintro (hlt | hnot | hnot)
    · omega
    · exact hnot henabled
    · exact hnot hhealth
  rw [notify]
  dsimp only
  rw [if_neg (by rw [hsaves]; decide), if_neg hpass, if_pos hshould, hdispatch]
  dsimp only
  rw [if_neg Bool.false_ne_true, if_neg (by rw [hnonempty]; exact Bool.false_ne_true), if_pos hsavesAgain,
    if_pos hdelivered]
  exact ⟨rfl, rfl⟩

theorem notify_silent {file : StateFile} {o : Observation} (hquiet : Undisturbed file.load o)
    (h : ¬ Sends file.load o) :
    (notify file o).message = none ∧ (notify file o).file.load = observe file.load o := by
  rw [notify]
  dsimp only
  rw [if_neg (by rw [hquiet.1]; decide)]
  split
  · exact ⟨rfl, rfl⟩
  · next hpass =>
      have hquiet : ¬ (if (o.observed == .ok) = true then (observe file.load o).lastNotifiedStatus == some .degraded
          else (observe file.load o).lastNotifiedStatus != some .degraded) = true := by
        intro hshould
        rw [not_or, not_or, not_not, not_not, Nat.not_lt] at hpass
        exact h ⟨hpass.2.1, hpass.2.2, hpass.1, (should_send _ _).mp hshould⟩
      rw [if_neg hquiet]
      exact ⟨rfl, rfl⟩

/-- What the file and the messages say about the events so far. -/
structure Follows (events : List Event) (run : StateFile × List Message) : Prop where
  observed : run.1.load.observedStatus = (statuses events).getLast?
  counted : ∀ s, (statuses events).getLast? = some s → run.1.load.observedCount = some (streak s (statuses events))
  notified : run.1.load.lastNotifiedStatus.getD .ok = lastAnnounced run.2
  alternates : Alternates (run.2.map (·.eventType))

theorem follows_start : Follows [] (.missing, []) := by
  refine ⟨rfl, ?_, rfl, rfl⟩
  rintro s ⟨⟩

theorem statuses_observation (events : List Event) (o : Observation) :
    statuses (events ++ [.observation o]) = statuses events ++ [o.observed] := by
  rw [statuses, List.filterMap_append]
  rfl

theorem statuses_restart (events : List Event) : statuses (events ++ [.restart]) = statuses events := by
  rw [statuses, List.filterMap_append]
  exact List.append_nil _

/-- The count in the file is the streak of the status that is observed. -/
theorem Follows.count {events : List Event} {run : StateFile × List Message} (h : Follows events run)
    (o : Observation) :
    (observe run.1.load o).observedCount = some (streak o.observed (statuses events ++ [o.observed])) := by
  rw [observe, streak_concat, if_pos rfl, h.observed]
  dsimp only
  by_cases hlast : (statuses events).getLast? = some o.observed
  · rw [if_pos hlast, h.counted _ hlast]
    rfl
  · rw [if_neg hlast]
    cases hstatuses : statuses events using List.reverseRecOn with
    | nil => rfl
    | append_singleton l t =>
        rw [hstatuses, List.getLast?_concat, Option.some.injEq] at hlast
        rw [streak_concat, if_neg hlast]

theorem Follows.sends_iff {events : List Event} {run : StateFile × List Message} (h : Follows events run)
    (o : Observation) :
    Sends run.1.load o ↔ o.settings.enabled = true ∧ o.settings.systemHealthNotifications = true ∧ Confirmed events o ∧
      o.observed ≠ lastAnnounced run.2 := by
  rw [Sends, h.count o, h.notified, Confirmed, replicate_suffix]
  rfl

/-- The condition on an event of a run, in the state that it meets. -/
def Event.Quiet (state : HealthState) : Event → Prop
  | .observation o => Undisturbed state o
  | .restart => True

theorem Follows.step {events : List Event} {run : StateFile × List Message} (h : Follows events run) {event : Event}
    (hquiet : event.Quiet run.1.load) : Follows (events ++ [event]) (HealthNotifications.step run event) := by
  cases event with
  | restart => exact
      ⟨by rw [statuses_restart]; exact h.observed, by rw [statuses_restart]; exact h.counted, h.notified, h.alternates⟩
  | observation o =>
      have hcounted (s : HealthStatus) (hs : (statuses events ++ [o.observed]).getLast? = some s) :
          (observe run.1.load o).observedCount = some (streak s (statuses events ++ [o.observed])) := by
        rw [List.getLast?_concat] at hs
        cases hs
        exact h.count o
      rw [HealthNotifications.step]
      by_cases hsends : Sends run.1.load o
      · obtain ⟨hmessage, hfile⟩ := notify_sends hquiet hsends
        rw [hmessage]
        refine ⟨?_, ?_, ?_, ?_⟩
        · rw [statuses_observation, List.getLast?_concat, hfile]
          rfl
        · rw [statuses_observation, hfile]
          exact hcounted
        · rw [hfile, lastAnnounced, Option.toList_some, List.getLast?_concat, Option.map_some, announced_build]
        · refine h.alternates.concat (s := o.observed) ?_ ((h.sends_iff o).mp hsends).2.2.2
          cases o.observed <;> rfl
      · obtain ⟨hmessage, hfile⟩ := notify_silent hquiet hsends
        rw [hmessage, Option.toList_none, List.append_nil]
        refine ⟨?_, ?_, ?_, h.alternates⟩
        · rw [statuses_observation, List.getLast?_concat, hfile]
          rfl
        · rw [statuses_observation, hfile]
          exact hcounted
        · rw [hfile]
          exact h.notified

/-- Every event of the run meets its condition. -/
def Quiet (events : List Event) : Prop :=
  ∀ before event rest, events = before ++ event :: rest → event.Quiet (runFrom before).1.load

theorem Quiet.of_append {before rest : List Event} (h : Quiet (before ++ rest)) : Quiet before := by
  intro first event second heq
  refine h first event (second ++ rest) ?_
  rw [heq, List.append_assoc, List.cons_append]

theorem follows {events : List Event} (h : Quiet events) : Follows events (runFrom events) := by
  induction events using List.reverseRecOn with
  | nil => exact follows_start
  | append_singleton events event ih =>
      rw [runFrom, List.foldl_append]
      exact (ih h.of_append).step (h events event [] rfl)

/-- In every undisturbed run degraded and restored are announced in turn, and a
call sends its message exactly if notifications are enabled, the last
observations agree and their status is not the one announced last. -/
theorem health_messages_alternate {events : List Event} (h : Quiet events) :
    Alternates ((messages events).map (·.eventType)) ∧
      ∀ before o rest, events = before ++ .observation o :: rest →
        (messages (before ++ [.observation o]) = messages before ++ (sentAt before o).toList) ∧
        ((∃ message, sentAt before o = some message) ↔
          o.settings.enabled = true ∧ o.settings.systemHealthNotifications = true ∧ Confirmed before o ∧
            o.observed ≠ lastAnnounced (messages before)) ∧
        ∀ message, sentAt before o = some message →
          message = buildSystemHealthMessage o.settings o.payload (o.observed == .ok) o.checkedAt := by
  refine ⟨(follows h).alternates, fun before o rest heq => ?_⟩
  subst heq
  have hquiet : Undisturbed (runFrom before).1.load o := h before (.observation o) rest rfl
  have hfollows := follows h.of_append
  refine ⟨?_, ?_, ?_⟩
  · rw [messages, runFrom, List.foldl_append]
    rfl
  · rw [messages, ← hfollows.sends_iff o, sentAt]
    by_cases hsends : Sends (runFrom before).1.load o
    · exact iff_of_true ⟨_, (notify_sends hquiet hsends).1⟩ hsends
    · refine iff_of_false ?_ hsends
      rw [(notify_silent hquiet hsends).1]
      rintro ⟨message, ⟨⟩⟩
  · intro message hmessage
    rw [sentAt] at hmessage
    by_cases hsends : Sends (runFrom before).1.load o
    · rw [(notify_sends hquiet hsends).1] at hmessage
      exact (Option.some.inj hmessage).symm
    · rw [(notify_silent hquiet hsends).1] at hmessage
      cases hmessage

section Samples

def sampleSettings : Settings := ⟨true, "bbm", .en, true, true, true, false⟩

/-- An observation whose e-mail goes out while the webhook fails. -/
def mailed (status : String) (decryptable : Bool) : Observation where
  payload := ⟨status, true, true, status == "ok", true⟩
  confirmations := 2
  settings := sampleSettings
  now := "10:00"
  checkedAt := "10:00"
  notifiedAt := "10:00"
  saves := true
  savesAgain := true
  delivers channel := channel == .email
  readable _ name := decryptable || name != .webhookUrl
  working := rfl

/-- A flap, a confirmed failure, a restart of the process, and a recovery. -/
def flapping : List Event :=
  [.observation (mailed "degraded" true), .observation (mailed "ok" true), .observation (mailed "degraded" true),
    .observation (mailed "degraded" true), .restart, .observation (mailed "degraded" true),
    .observation (mailed "ok" true), .observation (mailed "ok" true)]

theorem quiet_flapping : Quiet flapping := by
  have hmailed : ∀ status state, Undisturbed state (mailed status true) := fun status state =>
    ⟨rfl, fun _ => ⟨rfl, fun channel _ _ => rfl⟩⟩
  intro before event rest heq
  have hmem : event ∈ flapping := heq ▸ List.mem_append_right _ (List.mem_cons_self ..)
  simp only [flapping, List.mem_cons, List.not_mem_nil, or_false] at hmem
  rcases hmem with rfl | rfl | rfl | rfl | rfl | rfl | rfl | rfl <;> first | exact hmailed _ _ | exact trivial

theorem health_messages_alternate_flapping : Alternates ((messages flapping).map (·.eventType)) ∧
    (messages flapping).map (·.eventType) = ["system_health_degraded", "system_health_restored"] :=
  ⟨(health_messages_alternate quiet_flapping).1, by decide⟩

/-- The webhook URL cannot be decrypted. Its failure cannot be written down
either, after the e-mail has gone out, and the next observation sends it again. -/
theorem degraded_sent_twice : ¬ ∀ events, Alternates ((messages events).map (·.eventType)) := by
  intro hclaim
  have h := hclaim [.observation (mailed "degraded" false), .observation (mailed "degraded" false),
    .observation (mailed "degraded" false)]
  revert h
  rw [Alternates]
  decide

end Samples

end BorgManager.HealthNotifications
