import BorgManager.HostAccess
import BorgManager.Publication

namespace BorgManager.AuthorizedKeys

open Records ExecutionKeys HostAccess Publication Histories

variable (disk : Disk)

/-- How far a request has come with its call of
`sync_repository_access_assignments`. `since` is the version of the database
after the last change of the request itself, `readAt` the one that its first
query has seen. -/
inductive Call
  | idle
  | called (since : Nat)
  | selected (since readAt : Nat) (desired : List (Nat × Nat))
  | compared (since readAt : Nat) (desired : List (Nat × Nat)) (existing : List HostRepositoryAccess)
  | synced (since : Nat)
  | rendered (lines : List String) (readAt : Nat)
  | raised

/-- The database, the file and the requests. The versions count the commits;
the code does not keep them. -/
structure Server where
  db : Database
  version : Nat
  file : String
  fileVersion : Nat
  calls : Nat → Call

/-- One step of one request. Two sessions or two writers of the file never
overlap within a step: the transactions of the database are serialised, and
`_key_file_lock` orders the replacements of the file. -/
inductive KeyEvent
  | change (request : Nat) (db : Database)
  | call (request : Nat)
  | rebuild (request : Nat)
  | selectJobs (request : Nat)
  | selectAccesses (request : Nat)
  | commit (request : Nat)
  | conflict (request : Nat)
  | render (request : Nat)
  | write (request : Nat)
  | fail (request : Nat)

def KeyEvent.request : KeyEvent → Nat
  | .change request _ | .call request | .rebuild request | .selectJobs request | .selectAccesses request
  | .commit request | .conflict request | .render request | .write request | .fail request => request

def setCall (s : Server) (request : Nat) (call : Call) : Server :=
  { s with calls := Function.update s.calls request call }

def commitDatabase (s : Server) (db : Database) (request : Nat) (call : Call) : Server :=
  { s with db := db, version := s.version + 1, calls := Function.update s.calls request call }

/-- The transaction of a call raises when it violates a constraint, or when a
row that it has read is gone. Then the call is over without a rebuild. A call
that fails for any other reason never returns. -/
def keyNext (s : Server) : KeyEvent → Option Server
  | .change request db =>
      match s.calls request with
      | .idle | .called _ => some (commitDatabase s db request (.called (s.version + 1)))
      | _ => none
  | .call request =>
      match s.calls request with
      | .idle => some (setCall s request (.called 0))
      | _ => none
  | .rebuild request =>
      match s.calls request with
      | .idle => some (setCall s request (.synced 0))
      | .called since => some (setCall s request (.synced since))
      | _ => none
  | .selectJobs request =>
      match s.calls request with
      | .called since => some (setCall s request (.selected since s.version (desiredPairs s.db)))
      | _ => none
  | .selectAccesses request =>
      match s.calls request with
      | .selected since readAt desired =>
          some (setCall s request (.compared since readAt desired s.db.accesses))
      | _ => none
  | .commit request =>
      match s.calls request with
      | .compared _ _ desired existing =>
          (syncAssignments s.db desired existing).map (fun db =>
            commitDatabase s db request (.synced (s.version + 1)))
      | _ => none
  | .conflict request =>
      match s.calls request with
      | .compared _ readAt desired existing =>
          if syncAssignments s.db desired existing = none ∨ readAt < s.version then
            some (setCall s request .idle)
          else none
      | _ => none
  | .render request =>
      match s.calls request with
      | .synced _ => (rebuildLines disk s.db).toOption.map (fun lines => setCall s request (.rendered lines s.version))
      | _ => none
  | .write request =>
      match s.calls request with
      | .rendered lines readAt =>
          some { s with
            file := fileText lines, fileVersion := max s.fileVersion readAt
            calls := Function.update s.calls request .idle }
      | _ => none
  | .fail request =>
      match s.calls request with
      | .idle => none
      | _ => some (setCall s request .raised)

abbrev keyStep : Transition Server KeyEvent := graph (keyNext disk)

/-- No newer reading of the database is in the file already when a call writes
its own, unless both give the same text. -/
def WritesInOrder (s : Server) (e : KeyEvent) : Prop :=
  ∀ request lines readAt, e = .write request → s.calls request = .rendered lines readAt →
    s.fileVersion ≤ readAt ∨ fileText lines = s.file

def AllReturned (s : Server) : Prop := ∀ request, s.calls request = .idle

/-- The manager has started: the file has been written for the database. -/
structure Started (s : Server) : Prop where
  returned : AllReturned s
  version : s.fileVersion = s.version
  follows : FollowsDatabase disk s.db s.file

def currentText (db : Database) : String := fileText ((rebuildLines disk db).toOption.getD [])

def stageOf : Call → Stage String
  | .idle => .idle
  | .called since | .selected since _ _ | .compared since _ _ _ | .synced since => .due since
  | .rendered lines readAt => .holding (fileText lines) readAt
  | .raised => .failed

def boardOf (s : Server) : Board Nat String :=
  ⟨currentText disk s.db, s.version, s.file, s.fileVersion, stageOf ∘ s.calls⟩

/-- What a call has read is current as long as no commit has come after its
first query. -/
def ReadsFit (version : Nat) (db : Database) : Call → Prop
  | .called since => since ≤ version
  | .selected since readAt desired =>
      since ≤ readAt ∧ readAt ≤ version ∧ (readAt = version → desired = desiredPairs db)
  | .compared since readAt desired existing =>
      since ≤ readAt ∧ readAt ≤ version ∧
        (readAt = version → desired = desiredPairs db ∧ existing = db.accesses)
  | _ => True

def AllFit (s : Server) : Prop := ∀ request, ReadsFit s.version s.db (s.calls request)

variable {disk} {s s' : Server}

theorem currentText_follows (db : Database) : FollowsDatabase disk db (currentText disk db) := by
  obtain ⟨lines, hlines, hfollows⟩ := rebuildLines_spec disk db
  rw [currentText, hlines]
  exact hfollows

theorem followsDatabase_iff {db : Database} {text : String} :
    FollowsDatabase disk db text ↔ text = currentText disk db :=
  ⟨fun h => h.unique (currentText_follows db), fun h => h ▸ currentText_follows db⟩

theorem boardOf_setCall (request : Nat) (call : Call) :
    boardOf disk (setCall s request call) =
      { boardOf disk s with stage := Function.update (stageOf ∘ s.calls) request (stageOf call) } := by
  simp only [boardOf, setCall, Function.comp_update]

theorem boardOf_commit (db : Database) (request : Nat) (call : Call) :
    boardOf disk (commitDatabase s db request call) =
      { boardOf disk s with
        source := currentText disk db, version := s.version + 1
        stage := Function.update (stageOf ∘ s.calls) request (stageOf call) } := by
  simp only [boardOf, commitDatabase, Function.comp_update]

theorem boardOf_silent {request : Nat} {call : Call} (h : stageOf call = stageOf (s.calls request)) :
    boardOf disk (setCall s request call) = boardOf disk s := by
  rw [boardOf_setCall, h]
  exact congrArg (fun stage => { boardOf disk s with stage := stage })
    (Function.update_eq_self request (stageOf ∘ s.calls))

theorem AllFit.update (h : AllFit s) {request : Nat} {call : Call} (hcall : ReadsFit s.version s.db call)
    (r : Nat) : ReadsFit s.version s.db (Function.update s.calls request call r) := by
  by_cases hr : r = request
  · rw [hr, Function.update_self]
    exact hcall
  · rw [Function.update_of_ne hr]
    exact h r

theorem ReadsFit.later {version : Nat} {db : Database} {call : Call} (h : ReadsFit version db call)
    (db' : Database) : ReadsFit (version + 1) db' call := by
  cases call with
  | called since => exact Nat.le_succ_of_le h
  | selected since readAt desired =>
      have := h.2.1
      exact ⟨h.1, Nat.le_succ_of_le h.2.1, fun he => by omega⟩
  | compared since readAt desired existing =>
      have := h.2.1
      exact ⟨h.1, Nat.le_succ_of_le h.2.1, fun he => by omega⟩
  | idle | synced | rendered | raised => trivial

theorem AllFit.commit (h : AllFit s) {db : Database} {request : Nat} {call : Call}
    (hcall : ReadsFit (s.version + 1) db call) : AllFit (commitDatabase s db request call) := by
  intro r
  by_cases hr : r = request
  · simpa only [commitDatabase, hr, Function.update_self] using hcall
  · simpa only [commitDatabase, Function.update_of_ne hr] using (h r).later db

theorem overtaken_of_conflict {since readAt : Nat} {desired : List (Nat × Nat)}
    {existing : List HostRepositoryAccess} (h : ReadsFit s.version s.db (.compared since readAt desired existing))
    (hc : syncAssignments s.db desired existing = none ∨ readAt < s.version) : readAt < s.version := by
  rcases hc with hc | hc
  · apply Nat.lt_of_le_of_ne h.2.1
    intro he
    obtain ⟨rfl, rfl⟩ := h.2.2 he
    have := syncAssignments_current s.db
    rw [hc] at this
    cases this
  · exact hc

theorem write_eq_some {request : Nat} (h : keyStep disk s (.write request) s') :
    ∃ lines readAt, s.calls request = .rendered lines readAt ∧ s' = { s with
      file := fileText lines, fileVersion := max s.fileVersion readAt
      calls := Function.update s.calls request .idle } := by
  simp only [graph, keyNext] at h
  split at h
  · next lines readAt hcall => exact ⟨lines, readAt, hcall, (Option.some.inj h).symm⟩
  · cases h

theorem board_write {request : Nat} (h : keyStep disk s (.write request) s') :
    Step (boardOf disk s) (.publish request) (boardOf disk s') := by
  obtain ⟨lines, readAt, hcall, rfl⟩ := write_eq_some h
  have hhold : (boardOf disk s).stage request = .holding (fileText lines) readAt := by
    simp only [boardOf, Function.comp_apply, hcall, stageOf]
  simpa only [boardOf, Function.comp_update, stageOf] using Step.publish hhold

theorem timely_write {request : Nat} :
    Timely (boardOf disk s) (.publish request) ↔ WritesInOrder s (.write request) := by
  constructor
  · rintro h r lines readAt he hcall
    cases he
    exact h (fileText lines) readAt (by simp only [boardOf, Function.comp_apply, hcall, stageOf])
  · intro h content version hhold
    simp only [boardOf, Function.comp_apply] at hhold
    cases hcall : s.calls request with
    | rendered lines readAt =>
        rw [hcall] at hhold
        cases hhold
        exact h request _ _ rfl hcall
    | idle | called | selected | compared | synced | raised => simp [hcall, stageOf] at hhold

theorem calls_of_step {e : KeyEvent} (h : keyStep disk s e s') {request : Nat} (hne : request ≠ e.request) :
    s'.calls request = s.calls request := by
  cases e
  all_goals
    simp only [graph, keyNext] at h
    simp only [KeyEvent.request] at hne
  case commit =>
    split at h
    · obtain ⟨db, _, rfl⟩ := Option.map_eq_some_iff.mp h
      exact Function.update_of_ne hne ..
    · cases h
  case render =>
    split at h
    · obtain ⟨lines, _, rfl⟩ := Option.map_eq_some_iff.mp h
      exact Function.update_of_ne hne ..
    · cases h
  case conflict =>
    split at h
    · split at h
      · cases h
        exact Function.update_of_ne hne ..
      · cases h
    · cases h
  all_goals
    split at h <;> cases h <;> exact Function.update_of_ne hne ..

theorem calls_of_history {es : List KeyEvent} (h : History (keyStep disk) s es s') {request : Nat}
    (hne : ∀ e ∈ es, request ≠ e.request) : s'.calls request = s.calls request := by
  refine h.invariant_of_mem (fun a => a.calls request = s.calls request) rfl ?_
  intro a e b he ha hstep
  exact (calls_of_step hstep (hne e he)).trans ha

theorem stage_of_call {request : Nat} {call : Call} (h : s.calls request = call) :
    (boardOf disk s).stage request = stageOf call := congrArg stageOf h

/-- The step keeps the reads current, and it is at most one step on the
board. -/
def OnBoard (disk : Disk) (s : Server) (e : KeyEvent) (s' : Server) : Prop :=
  AllFit s' ∧ (boardOf disk s' = boardOf disk s ∨
    ∃ e', Step (boardOf disk s) e' (boardOf disk s') ∧ (WritesInOrder s e → Timely (boardOf disk s) e'))

variable {e : KeyEvent} {request : Nat} {call : Call}

theorem OnBoard.silent (hf : AllFit s) (hfit : ReadsFit s.version s.db call)
    (hstage : stageOf call = stageOf (s.calls request)) : OnBoard disk s e (setCall s request call) :=
  ⟨hf.update hfit, .inl (boardOf_silent hstage)⟩

theorem OnBoard.visible (e' : BoardEvent Nat String) (hf : AllFit s) (hfit : ReadsFit s.version s.db call)
    (ht : Timely (boardOf disk s) e')
    (hstep : Step (boardOf disk s) e'
      { boardOf disk s with stage := Function.update (stageOf ∘ s.calls) request (stageOf call) }) :
    OnBoard disk s e (setCall s request call) := by
  refine ⟨hf.update hfit, .inr ⟨e', ?_, fun _ => ht⟩⟩
  rw [boardOf_setCall]
  exact hstep

theorem OnBoard.commit (hf : AllFit s) (db : Database) (hfit : ReadsFit (s.version + 1) db call)
    (hstage : stageOf call = .due (s.version + 1)) {before : Call} (hcall : s.calls request = before)
    (hfree : ∀ content version, stageOf before ≠ .holding content version) (hworking : stageOf before ≠ .failed) :
    OnBoard disk s e (commitDatabase s db request call) := by
  rw [← hcall] at hfree hworking
  refine ⟨hf.commit hfit, .inr ⟨.change request (currentText disk db), ?_, fun _ => trivial⟩⟩
  rw [boardOf_commit, hstage]
  exact .change _ hfree hworking

theorem OnBoard.conflict (hf : AllFit s) (h : keyStep disk s (.conflict request) s') :
    OnBoard disk s (.conflict request) s' := by
  simp only [graph, keyNext] at h
  split at h
  · next since readAt desired existing hcall =>
      split at h
      · next hc =>
          cases h
          have hfit := hf request
          rw [hcall] at hfit
          refine OnBoard.visible (.abandon request) hf trivial trivial ?_
          exact .abandon (stage_of_call hcall) (Nat.lt_of_le_of_lt hfit.1 (overtaken_of_conflict hfit hc))
      · cases h
  · cases h

theorem OnBoard.render (hf : AllFit s) (h : keyStep disk s (.render request) s') :
    OnBoard disk s (.render request) s' := by
  simp only [graph, keyNext] at h
  split at h
  · next since hcall =>
      obtain ⟨lines, hlines, rfl⟩ := Option.map_eq_some_iff.mp h
      refine OnBoard.visible (.read request) hf trivial trivial ?_
      rw [show stageOf (.rendered lines s.version) = .holding (boardOf disk s).source (boardOf disk s).version by
        simp [stageOf, boardOf, currentText, hlines]]
      exact .read (stage_of_call hcall)
  · cases h

theorem OnBoard.fail (hf : AllFit s) (h : keyStep disk s (.fail request) s') :
    OnBoard disk s (.fail request) s' := by
  simp only [graph, keyNext] at h
  split at h
  · cases h
  · next hcall =>
      cases h
      refine OnBoard.visible (.fail request) hf trivial trivial ?_
      apply Step.fail
      intro hidle
      cases hc : s.calls request with
      | idle => exact hcall hc
      | called | selected | compared | synced | rendered | raised => simp [boardOf, hc, stageOf] at hidle

/-- One step of a request is at most one step on the board. -/
theorem step_on_board (hf : AllFit s) (h : keyStep disk s e s') : OnBoard disk s e s' := by
  cases e with
  | change request db =>
      simp only [graph, keyNext] at h
      split at h
      · next hcall =>
          cases h
          exact .commit hf db (Nat.le_refl _) rfl hcall nofun nofun
      · next since hcall =>
          cases h
          exact .commit hf db (Nat.le_refl _) rfl hcall nofun nofun
      · cases h
  | call request =>
      simp only [graph, keyNext] at h
      split at h
      · next hcall =>
          cases h
          exact .visible (.call request) hf (Nat.zero_le _) trivial (.call (stage_of_call hcall))
      · cases h
  | rebuild request =>
      simp only [graph, keyNext] at h
      split at h
      · next hcall =>
          cases h
          exact .visible (.call request) hf trivial trivial (.call (stage_of_call hcall))
      · next since hcall =>
          cases h
          exact .silent hf trivial (by rw [hcall]; rfl)
      · cases h
  | selectJobs request =>
      simp only [graph, keyNext] at h
      split at h
      · next since hcall =>
          cases h
          have hfit := hf request
          rw [hcall] at hfit
          exact .silent hf ⟨hfit, Nat.le_refl _, fun _ => rfl⟩ (by rw [hcall]; rfl)
      · cases h
  | selectAccesses request =>
      simp only [graph, keyNext] at h
      split at h
      · next since readAt desired hcall =>
          cases h
          have hfit := hf request
          rw [hcall] at hfit
          exact .silent hf ⟨hfit.1, hfit.2.1, fun he => ⟨hfit.2.2 he, rfl⟩⟩ (by rw [hcall]; rfl)
      · cases h
  | commit request =>
      simp only [graph, keyNext] at h
      split at h
      · next since readAt desired existing hcall =>
          obtain ⟨db, _, rfl⟩ := Option.map_eq_some_iff.mp h
          exact .commit hf db trivial rfl hcall nofun nofun
      · cases h
  | conflict request => exact .conflict hf h
  | render request => exact .render hf h
  | write request =>
      refine ⟨?_, .inr ⟨.publish request, board_write h, timely_write.mpr⟩⟩
      obtain ⟨lines, readAt, _, rfl⟩ := write_eq_some h
      exact hf.update trivial
  | fail request => exact .fail hf h

/-- A run of the requests is a run on the board, and its writes come in time
if they come in order. -/
theorem history_on_board {es : List KeyEvent} (hf : AllFit s)
    (h : History (meeting (keyStep disk) WritesInOrder) s es s') :
    AllFit s' ∧ ∃ es', History (meeting Step Timely) (boardOf disk s) es' (boardOf disk s') := by
  apply h.simulate (boardOf disk) AllFit hf
  rintro a e b ha ⟨hstep, hcond⟩
  obtain ⟨hb, hsame | ⟨e', he', ht⟩⟩ := step_on_board ha hstep
  · exact ⟨hb, .inl hsame⟩
  · exact ⟨hb, .inr ⟨e', he', ht hcond⟩⟩

theorem Started.allFit (h : Started disk s) : AllFit s := by
  intro request
  rw [h.returned request]
  trivial

theorem Started.current (h : Started disk s) : Current (boardOf disk s) where
  notNewer := Nat.le_of_eq h.version
  published := fun _ => followsDatabase_iff.mp h.follows
  heldNotNewer := by
    intro request content version hhold
    simp [boardOf, h.returned request, stageOf] at hhold
  held := by
    intro request content hhold
    simp [boardOf, h.returned request, stageOf] at hhold
  owed := fun hlt => absurd h.version (Nat.ne_of_lt hlt)

theorem quiet_of_returned (h : AllReturned s) : Quiet (boardOf disk s) :=
  fun request => congrArg stageOf (h request)

/-- Once all calls have returned, the file follows the database, if no call
has written over a newer reading; and a last write that does so leaves a file
that does not follow it. -/
theorem authorized_keys_follow {s₀ : Server} (h₀ : Started disk s₀) :
    (∀ es s, History (meeting (keyStep disk) WritesInOrder) s₀ es s → AllReturned s →
      FollowsDatabase disk s.db s.file) ∧
    ∀ es s request s', History (meeting (keyStep disk) WritesInOrder) s₀ es s →
      keyStep disk s (.write request) s' → AllReturned s' →
      (FollowsDatabase disk s'.db s'.file ↔ WritesInOrder s (.write request)) := by
  constructor
  · intro es s h hret
    obtain ⟨_, es', hboard⟩ := history_on_board h₀.allFit h
    exact followsDatabase_iff.mpr ((h₀.current.history hboard).quiet (quiet_of_returned hret))
  · intro es s request s' h hwrite hret
    obtain ⟨_, es', hboard⟩ := history_on_board h₀.allFit h
    rw [followsDatabase_iff, ← @timely_write disk]
    exact (h₀.current.history hboard).last_iff (board_write hwrite) (quiet_of_returned hret)

def sampleDisk : Disk where
  root := ["repositories"]
  resolve := fun _ => ["repositories", "first"]

def sampleRepository : Repository :=
  ⟨1, "first", true, "/repositories/first", some "/repositories/first", true, none⟩

def sampleKey : String := "ssh-ed25519 AAAA bbm-access-h1-r1"

theorem sampleKey_normalized : Normalized sampleKey := ⟨"ssh-ed25519 AAAA", "bbm-access-h1-r1", by decide⟩

/-- One device with a key for one repository. -/
def sampleDatabase (enabled : Bool) : Database where
  hosts := [⟨1, enabled, true⟩]
  repositories := [sampleRepository]
  jobs := [⟨1, 1⟩]
  accesses := [⟨1, 1, 1, some sampleKey⟩]
  hostIds := by simp
  repositoryIds := by simp
  jobHosts := by simp
  jobRepositories := by simp [sampleRepository]
  uniquePairs := by simp
  accessHosts := by simp
  accessRepositories := by simp [sampleRepository]
  normalized := by
    intro access haccess publicKey hkey
    rw [List.mem_singleton] at haccess
    rw [haccess] at hkey
    cases hkey
    exact sampleKey_normalized

def startedServer : Server :=
  ⟨sampleDatabase true, 0, currentText sampleDisk (sampleDatabase true), 0, fun _ => .idle⟩

theorem startedServer_started : Started sampleDisk startedServer :=
  ⟨fun _ => rfl, rfl, currentText_follows _⟩

def syncCall (request : Nat) : List KeyEvent :=
  [.selectJobs request, .selectAccesses request, .commit request, .render request]

def disableReading : List KeyEvent := .change 2 (sampleDatabase false) :: syncCall 2

def beforeDisablingWrite : Server := (exec (keyNext sampleDisk) startedServer disableReading).get (by decide)

def afterDisabling : Server := (keyNext sampleDisk beforeDisablingWrite (.write 2)).get (by decide)

def overtakenCall : List KeyEvent := .call 1 :: (syncCall 1 ++ (disableReading ++ [.write 2]))

def beforeStaleWrite : Server := (exec (keyNext sampleDisk) startedServer overtakenCall).get (by decide)

theorem beforeStaleWrite_history : History (keyStep sampleDisk) startedServer overtakenCall beforeStaleWrite :=
  history_of_exec (Option.some_get _).symm

def afterStaleWrite : Server := (keyNext sampleDisk beforeStaleWrite (.write 1)).get (by decide)

theorem staleWrite : keyStep sampleDisk beforeStaleWrite (.write 1) afterStaleWrite := (Option.some_get _).symm

theorem returned_of_two {s : Server} (hfirst : s.calls 1 = .idle) (hsecond : s.calls 2 = .idle)
    {es : List KeyEvent} (h : History (keyStep sampleDisk) startedServer es s)
    (hes : ∀ e ∈ es, e.request = 1 ∨ e.request = 2) : AllReturned s := by
  intro request
  by_cases h₁ : request = 1
  · rw [h₁, hfirst]
  · by_cases h₂ : request = 2
    · rw [h₂, hsecond]
    · apply calls_of_history h
      intro e he heq
      rcases hes e he with hr | hr
      · exact h₁ (heq.trans hr)
      · exact h₂ (heq.trans hr)

theorem authorized_keys_follow_disabled :
    FollowsDatabase sampleDisk afterDisabling.db afterDisabling.file ∧
    (FollowsDatabase sampleDisk afterDisabling.db afterDisabling.file ↔
      WritesInOrder beforeDisablingWrite (.write 2)) := by
  have hkeys := authorized_keys_follow startedServer_started
  have hreading : History (meeting (keyStep sampleDisk) WritesInOrder) startedServer
      (disableReading) beforeDisablingWrite :=
    .cons ⟨rfl, nofun⟩ (.cons ⟨rfl, nofun⟩ (.cons ⟨rfl, nofun⟩ (.cons ⟨rfl, nofun⟩ (.cons ⟨rfl, nofun⟩ (.nil _)))))
  have hwrite : keyStep sampleDisk beforeDisablingWrite (.write 2) afterDisabling := (Option.some_get _).symm
  have hreturned : AllReturned afterDisabling :=
    returned_of_two rfl rfl (hreading.forget.snoc hwrite) (by decide)
  have hiff := hkeys.2 _ _ _ _ hreading hwrite hreturned
  refine ⟨hkeys.1 _ _ (hreading.snoc ⟨hwrite, hiff.mp ?_⟩) hreturned, hiff⟩
  exact followsDatabase_iff.mpr (by decide)

/-- A call that has read the database before a device is disabled writes its
file last, and the disabled device can reach its repository again. -/
theorem stale_write_restores_key :
    ¬ ∀ es s, History (keyStep sampleDisk) startedServer es s → AllReturned s →
      FollowsDatabase sampleDisk s.db s.file := by
  intro h
  have hreturned : AllReturned afterStaleWrite :=
    returned_of_two rfl rfl (beforeStaleWrite_history.snoc staleWrite) (by decide)
  have hfollows := h _ _ (beforeStaleWrite_history.snoc staleWrite) hreturned
  exact absurd (followsDatabase_iff.mp hfollows) (by decide)

end BorgManager.AuthorizedKeys
