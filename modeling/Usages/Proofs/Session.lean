/-
The panel in the course of a session.

Display flags live in two places, in the panel and in the projects, and three kinds of messages move
them: a lookup takes the options of its project into the panel, a toggle either goes through the
project of the panel or, without one, changes the panel alone. `Follows` is the invariant that ties
the two together and says which lookup the panel shows. `Follows.take` is one step of a session and
`Follows.after` a whole run; no message but these three kinds touches the panel or the projects
(`take_other`). Loading the folders a second time would, so the run is one after that.
-/
import Usages.Proofs.Except
import Usages.Server.Step

namespace Usages.Server

/-! ## Sessions -/

/-- A message that comes in, with the disk as it then is and the client's reply if the server asks
for one. -/
structure Event where
  disk : Disk
  reply : Reply
  message : Message

def take (server : Server) (event : Event) : Outcome :=
  server.step event.disk event.reply event.message

/-- The server after some events. -/
def after (server : Server) (events : List Event) : Server :=
  events.foldl (fun server event => (server.take event).server) server

@[simp] theorem after_nil (server : Server) : server.after [] = server := rfl

@[simp] theorem after_cons (server : Server) (event : Event) (rest : List Event) :
    server.after (event :: rest) = (server.take event).server.after rest := rfl

namespace Message

/-- The command that a request names, with its arguments. -/
def command? (message : Message) : Option (CommandName × List Json) :=
  if message.isRequest = true ∧ message.method = "workspace/executeCommand" then
    (message.params.bind Params.command?).bind fun command =>
      (CommandName.ofText? command.name).map fun name => (name, command.arguments)
  else none

/-- The place at which a message asks to find all references; there may be none in it. -/
def place? (message : Message) : Option (Option DocumentPosition) :=
  match message.command? with
  | some (.findAllReferences, arguments) => some (arguments.head?.bind Params.documentPosition?)
  | _ => none

/-- The flag that a message asks to toggle. -/
def flag? (message : Message) : Option Flag :=
  match message.command? with
  | some (.toggle flag, _) => some flag
  | _ => none

/-- The message neither has the folders loaded nor ends the session. -/
def InSession (message : Message) : Prop :=
  message.method ∉ ["initialized", "shutdown", "exit"]

instance (message : Message) : Decidable message.InSession :=
  inferInstanceAs (Decidable (_ ∉ _))

end Message

/-- What a lookup that succeeds brings to the panel. -/
structure Found where
  workspace : Option String
  root : Option String
  findings : Findings

def Lookup.found? (lookup : Lookup) : Option Found :=
  lookup.outcome.toOption.map fun findings => ⟨lookup.workspace, lookup.root, findings⟩

/-- What an event finds, if it is a lookup that succeeds. -/
def found? (server : Server) (event : Event) : Option Found :=
  event.message.place?.bind fun place => (server.lookup event.disk place).found?

/-- What the last of the lookups that succeed finds. -/
def lastFound? (server : Server) : List Event → Option Found
  | [] => none
  | event :: rest => (lastFound? (server.take event).server rest).or (server.found? event)

/-- Every toggle among the events is saved, if it has to be. -/
def SavesSucceed (server : Server) : List Event → Prop
  | [] => True
  | event :: rest =>
    (∀ flag ∈ event.message.flag?, (server.toggle event.disk flag).failure = none) ∧
      SavesSucceed (server.take event).server rest

instance decidableSavesSucceed : (server : Server) → (events : List Event) →
    Decidable (server.SavesSucceed events)
  | _, [] => isTrue trivial
  | server, event :: rest =>
    have := decidableSavesSucceed (server.take event).server rest
    inferInstanceAs (Decidable (_ ∧ _))

/-- The answer is the tree of the latest findings, under the options and the root that the panel
then has. -/
def Outcome.ShowsPanel (outcome : Outcome) : Prop :=
  ∃ findings, outcome.server.panel.view.latest = some findings ∧
    outcome.response = .result (outcome.server.treeJson outcome.disk
      (.ofFindings findings outcome.server.panel.view.options outcome.server.panel.view.root))

/-! ## What a message can do -/

variable {server : Server} {event : Event}

theorem take_command {name : CommandName} {arguments : List Json}
    (hrunning : server.phase = .running)
    (h : event.message.command? = some (name, arguments)) :
    server.take event =
      match name with
      | .findAllReferences => server.runFind event.disk arguments
      | .openReference => server.runOpen event.disk event.reply arguments
      | .toggle flag => server.runToggle event.disk flag := by
  obtain ⟨disk, reply, ⟨method, params, isRequest⟩⟩ := event
  simp only [Message.command?] at h
  split at h
  next hrequest =>
    obtain ⟨rfl, rfl⟩ := hrequest
    obtain ⟨command, hparams, h⟩ := Option.bind_eq_some_iff.1 h
    obtain ⟨_, hname, h⟩ := Option.map_eq_some_iff.1 h
    cases h
    have hknown : isKnown "workspace/executeCommand" = true := by decide
    simp [take, step, request, hrunning, hknown, answer, hparams, runCommand, hname]
    cases name <;> rfl
  next => cases h

/-- Two states of a server that show the same and know the same projects. -/
structure SamePanel (server other : Server) : Prop where
  phase : other.phase = server.phase
  panel : other.panel = server.panel
  projects : other.projects = server.projects

theorem SamePanel.refl (server : Server) : SamePanel server server :=
  ⟨rfl, rfl, rfl⟩

theorem samePanel_updateDocuments (server : Server) (uri : Uri)
    (change : OpenDocuments → String → OpenDocuments) :
    SamePanel server (server.updateDocuments uri change) := by
  rw [updateDocuments]
  split
  · exact ⟨rfl, rfl, rfl⟩
  · exact .refl server

theorem samePanel_notify {method : String} (h : method ≠ "initialized") (disk : Disk)
    (params : Json) : SamePanel server (server.notify disk method params).server := by
  unfold notify
  dsimp only
  split
  · exact absurd rfl h
  · split
    next uri text _ => exact samePanel_updateDocuments server uri (·.update · text)
    next => exact .refl server
  · split
    · split
      next text _ => exact samePanel_updateDocuments server _ (·.update · text)
      next => exact .refl server
    · exact .refl server
  · split
    next uri _ => exact samePanel_updateDocuments server uri .close
    next => exact .refl server
  · exact .refl server

theorem samePanel_runOpen (disk : Disk) (reply : Reply) (arguments : List Json) :
    SamePanel server (server.runOpen disk reply arguments).server := by
  unfold runOpen
  split
  · exact .refl server
  · split <;> exact .refl server

theorem samePanel_answer {method : String} (hshutdown : method ≠ "shutdown") {params : Option Json}
    (hcommand : method = "workspace/executeCommand" → ∀ command,
      params.bind Params.command? = some command → CommandName.ofText? command.name = none)
    (disk : Disk) (reply : Reply) :
    SamePanel server (server.answer disk reply method params).server := by
  unfold answer
  dsimp only
  split
  · exact absurd rfl hshutdown
  · split <;> exact .refl server
  · split
    · exact .refl server
    next command hparams =>
      rw [runCommand, hcommand rfl command hparams]
      exact .refl server
  · split <;> exact .refl server

theorem samePanel_request {method : String} (hrunning : server.phase = .running)
    (hshutdown : method ≠ "shutdown") {params : Option Json}
    (hcommand : method = "workspace/executeCommand" → ∀ command,
      params.bind Params.command? = some command → CommandName.ofText? command.name = none)
    (disk : Disk) (reply : Reply) :
    SamePanel server (server.request disk reply method params).server := by
  unfold request
  dsimp only
  split
  · -- A session starts once.
    rw [startSession, hrunning]
    exact .refl server
  split
  · split <;> exact .refl server
  · rw [hrunning]
    exact samePanel_answer hshutdown hcommand disk reply

/-- A message that names no command leaves the panel and the projects alone. -/
theorem take_other (hrunning : server.phase = .running) (hmessage : event.message.InSession)
    (h : event.message.command? = none) : SamePanel server (server.take event).server := by
  obtain ⟨disk, reply, ⟨method, params, isRequest⟩⟩ := event
  simp only [Message.InSession, List.mem_cons, List.not_mem_nil, or_false, not_or] at hmessage
  obtain ⟨hinitialized, hshutdown, hexit⟩ := hmessage
  have hexited : server.phase ≠ .exited := by rw [hrunning]; decide
  unfold take step
  dsimp only
  rw [if_neg hexited, if_neg (by simpa using hexit)]
  split
  next hrequest =>
    refine samePanel_request hrunning hshutdown (fun hmethod command hparams => ?_) disk reply
    simp only [Message.command?, hrequest, hmethod, and_self, if_true, hparams, Option.bind_some,
      Option.map_eq_none_iff] at h
    exact h
  next =>
    split
    · exact samePanel_notify hinitialized disk _
    · exact .refl server

/-! ## Lookups -/

theorem apply_of_ok (server : Server) {lookup : Lookup} {findings : Findings}
    (h : lookup.outcome = .ok findings) :
    server.apply lookup =
      let options := ((lookup.workspace.bind server.project?).map (·.displayOptions)).getD
        server.panel.view.options
      ({ server with panel := ⟨⟨options, lookup.root, some findings⟩, lookup.workspace⟩ },
        .rendered (.ofFindings findings options lookup.root)) := by
  simp only [apply, h]
  rfl

theorem apply_of_error (server : Server) {lookup : Lookup} {failure : Failure}
    (h : lookup.outcome = .error failure) : server.apply lookup = (server, .ofFailure failure) := by
  simp only [apply, h]
  rfl

theorem report_ofFailure (server : Server) (disk : Disk) (failure : Failure) :
    (server.report disk (.ofFailure failure)).server = server ∧
      (server.report disk (.ofFailure failure)).response = .result .null := by
  rw [ViewUpdate.ofFailure]
  split <;> exact ⟨rfl, rfl⟩

theorem take_find (hrunning : server.phase = .running) {place : Option DocumentPosition}
    (h : event.message.place? = some place) :
    server.take event =
      (server.apply (server.lookup event.disk place)).1.report event.disk
        (server.apply (server.lookup event.disk place)).2 := by
  unfold Message.place? at h
  split at h
  next arguments hcommand =>
    cases h
    rw [take_command hrunning hcommand]
    rfl
  next => cases h

/-- A lookup that fails leaves everything as it was. -/
theorem take_find_of_error (hrunning : server.phase = .running) {place : Option DocumentPosition}
    (h : event.message.place? = some place) {failure : Failure}
    (hfailed : (server.lookup event.disk place).outcome = .error failure) :
    (server.take event).server = server ∧ (server.take event).response = .result .null := by
  rw [take_find hrunning h, apply_of_error server hfailed]
  exact report_ofFailure server event.disk failure

/-- The project with the deepest root is one of those that were looked at. -/
theorem mem_of_foldl_deeper {candidates : List (String × Project)}
    {best : Option (String × Project)} {found : String × Project}
    (h : candidates.foldl deeper best = some found) : best = some found ∨ found ∈ candidates := by
  induction candidates generalizing best with
  | nil => exact .inl h
  | cons candidate rest ih =>
    rw [List.foldl_cons] at h
    rcases ih h with hbest | hrest
    · unfold deeper at hbest
      split at hbest
      · split at hbest
        · exact .inl hbest
        · exact .inr (Option.some.inj hbest ▸ List.mem_cons_self)
      · exact .inr (Option.some.inj hbest ▸ List.mem_cons_self)
    · exact .inr (List.mem_cons_of_mem _ hrest)

/-- The project of a file: a loaded one that contains the file, or one of its directory. -/
theorem projectFor_cases {disk : Disk} {file : String} {workspace : Option String}
    {project : Project} (h : server.projectFor disk file = .ok (workspace, project)) :
    (∃ key, workspace = some key ∧ (key, project) ∈ server.projects ∧
      Path.startsWith file project.root = true) ∨
    workspace = none ∧ Project.ofRoot disk ((Path.parent? file).getD file) = .ok project := by
  unfold projectFor at h
  split at h
  next key _ hfound =>
    cases h
    rcases mem_of_foldl_deeper hfound with hnone | hmem
    · cases hnone
    · obtain ⟨hloaded, hcontains⟩ := List.mem_filter.1 hmem
      exact .inl ⟨key, rfl, hloaded, hcontains⟩
  next =>
    obtain ⟨_, hroot, hpure⟩ := bind_eq_ok.1 h
    cases hpure
    exact .inr ⟨rfl, hroot⟩

theorem exists_project_of_mem {key : String} {project : Project}
    (h : (key, project) ∈ server.projects) : ∃ found, server.project? key = some found := by
  cases hfound : server.project? key with
  | some found => exact ⟨found, rfl⟩
  | none =>
    rw [project?, List.lookup_eq_none_iff] at hfound
    exact absurd rfl (bne_iff_ne.1 (hfound _ h))

/-- The workspace of a lookup is that of a loaded project. -/
theorem exists_project_of_lookup {disk : Disk} {place : Option DocumentPosition} {key : String}
    (h : (server.lookup disk place).workspace = some key) :
    ∃ project, server.project? key = some project := by
  unfold lookup at h
  split at h
  · cases h
  split at h
  · cases h
  next workspace project hproject =>
    dsimp only at h
    subst h
    rcases projectFor_cases hproject with ⟨_, hkey, hloaded, -⟩ | ⟨hnone, -⟩
    · cases hkey
      exact exists_project_of_mem hloaded
    · cases hnone

/-! ## Toggles -/

theorem lookup_setProject {key : String} {projects : List (String × Project)} {old : Project}
    (h : projects.lookup key = some old) (project : Project) :
    (setProject key project projects).lookup key = some project := by
  induction projects with
  | nil => cases h
  | cons first rest ih =>
    obtain ⟨other, kept⟩ := first
    rw [setProject]
    by_cases hkey : other = key
    · rw [if_pos hkey, hkey, List.lookup_cons_self]
    · have hother : (key == other) = false := beq_false_of_ne (Ne.symm hkey)
      rw [List.lookup_cons, hother] at h
      rw [if_neg hkey, List.lookup_cons, hother]
      exact ih h

theorem toggle_of_none (h : server.panel.workspace = none) (disk : Disk) (flag : Flag) :
    server.toggle disk flag =
      { server := server.setOptions (flipOption flag server.panel.view.options), disk } := by
  rw [toggle, h]
  rfl

/-- A toggle in the project of the panel, once it is saved. -/
theorem toggle_of_some {key : String} {project : Project} (h : server.panel.workspace = some key)
    (hproject : server.project? key = some project) {disk : Disk} {flag : Flag}
    (hsaved : (server.toggle disk flag).failure = none) :
    let toggled := project.toggle disk flag
    server.toggle disk flag =
      { server := setOptions { server with
          projects := setProject key toggled.project server.projects }
          toggled.project.displayOptions
        disk := toggled.disk } := by
  simp only [toggle, h, hproject, Option.bind_some, Option.map_some] at hsaved ⊢
  split at hsaved
  · rfl
  · cases hsaved

theorem take_toggle (hrunning : server.phase = .running) {flag : Flag}
    (h : event.message.flag? = some flag)
    (hsaved : (server.toggle event.disk flag).failure = none) :
    let toggled := server.toggle event.disk flag
    server.take event =
      { server := toggled.server
        disk := toggled.disk
        response := .result (.ofOption
          (toggled.server.panel.view.tree.map (toggled.server.treeJson toggled.disk))) } := by
  unfold Message.flag? at h
  split at h
  next hcommand =>
    cases h
    rw [take_command hrunning hcommand]
    simp only [runToggle, hsaved]
  next => cases h

/-! ## The invariant -/

/-- The panel shows what was found last, if anything was; its options are those of the project it
came from, if that is a loaded one. -/
structure Follows (server : Server) (last : Option Found) : Prop where
  running : server.phase = .running
  latest : server.panel.view.latest = last.map (·.findings)
  root : server.panel.view.root = last.bind (·.root)
  workspace : server.panel.workspace = last.bind (·.workspace)
  options : ∀ key, server.panel.workspace = some key →
    ∃ project, server.project? key = some project ∧
      server.panel.view.options = project.displayOptions

variable {last : Option Found}

theorem Follows.of_samePanel {other : Server} (h : server.Follows last)
    (hsame : SamePanel server other) : other.Follows last := by
  obtain ⟨hphase, hpanel, hprojects⟩ := hsame
  refine ⟨by rw [hphase, h.running], by rw [hpanel, h.latest], by rw [hpanel, h.root],
    by rw [hpanel, h.workspace], fun key hkey => ?_⟩
  rw [hpanel] at hkey ⊢
  rw [project?, hprojects]
  exact h.options key hkey

theorem Follows.find (h : server.Follows last) {place : Option DocumentPosition}
    (hplace : event.message.place? = some place) :
    (server.take event).server.Follows ((server.found? event).or last) := by
  have hfound : server.found? event = (server.lookup event.disk place).found? := by
    rw [found?, hplace, Option.bind_some]
  cases houtcome : (server.lookup event.disk place).outcome with
  | error failure =>
    have hnone : server.found? event = none := by
      rw [hfound, Lookup.found?, houtcome]
      rfl
    rw [(take_find_of_error h.running hplace houtcome).1, hnone, Option.none_or]
    exact h
  | ok findings =>
    have hsome : server.found? event = some ⟨(server.lookup event.disk place).workspace,
        (server.lookup event.disk place).root, findings⟩ := by
      rw [hfound, Lookup.found?, houtcome]
      rfl
    rw [take_find h.running hplace, apply_of_ok server houtcome, hsome, Option.some_or]
    refine ⟨h.running, rfl, rfl, rfl, fun key hkey => ?_⟩
    obtain ⟨project, hproject⟩ := exists_project_of_lookup hkey
    refine ⟨project, hproject, ?_⟩
    have hworkspace : (server.lookup event.disk place).workspace = some key := hkey
    simp only [report, hworkspace, Option.bind_some, hproject, Option.map_some, Option.getD_some]

theorem Follows.toggle (h : server.Follows last) {disk : Disk} {flag : Flag}
    (hsaved : (server.toggle disk flag).failure = none) :
    (server.toggle disk flag).server.Follows last := by
  cases hworkspace : server.panel.workspace with
  | none =>
    rw [toggle_of_none hworkspace]
    refine ⟨h.running, h.latest, h.root, h.workspace, fun key hkey => ?_⟩
    have hnone : server.panel.workspace = some key := hkey
    rw [hworkspace] at hnone
    cases hnone
  | some key =>
    obtain ⟨project, hproject, -⟩ := h.options key hworkspace
    rw [toggle_of_some hworkspace hproject hsaved]
    refine ⟨h.running, h.latest, h.root, h.workspace, fun other hother => ?_⟩
    have hkey : server.panel.workspace = some other := hother
    rw [hworkspace] at hkey
    cases hkey
    exact ⟨_, lookup_setProject hproject _, rfl⟩

/-- One step of a session. -/
theorem Follows.take (h : server.Follows last) (hmessage : event.message.InSession)
    (hsaves : ∀ flag, event.message.flag? = some flag →
      (server.toggle event.disk flag).failure = none) :
    (server.take event).server.Follows ((server.found? event).or last) := by
  cases hplace : event.message.place? with
  | some place => exact h.find hplace
  | none =>
    have hnone : server.found? event = none := by rw [found?, hplace, Option.bind_none]
    rw [hnone, Option.none_or]
    cases hflag : event.message.flag? with
    | some flag =>
      rw [take_toggle h.running hflag (hsaves flag hflag)]
      exact h.toggle (hsaves flag hflag)
    | none =>
      refine h.of_samePanel ?_
      cases hcommand : event.message.command? with
      | none => exact take_other h.running hmessage hcommand
      | some command =>
        obtain ⟨name, arguments⟩ := command
        rw [take_command h.running hcommand]
        cases name with
        | findAllReferences => simp [Message.place?, hcommand] at hplace
        | openReference => exact samePanel_runOpen event.disk event.reply arguments
        | toggle flag => simp [Message.flag?, hcommand] at hflag

/-- A whole run. -/
theorem Follows.after {events : List Event} (h : server.Follows last)
    (hmessages : ∀ event ∈ events, event.message.InSession) (hsaves : server.SavesSucceed events) :
    (server.after events).Follows ((server.lastFound? events).or last) := by
  induction events generalizing server last with
  | nil => exact h
  | cons event rest ih =>
    have hstep := h.take (hmessages event List.mem_cons_self) hsaves.1
    have hrest := ih hstep (fun other hother => hmessages other (List.mem_cons_of_mem _ hother))
      hsaves.2
    rw [after_cons, lastFound?, Option.or_assoc]
    exact hrest

theorem savesSucceed_append {front back : List Event} :
    server.SavesSucceed (front ++ back) ↔
      server.SavesSucceed front ∧ (server.after front).SavesSucceed back := by
  induction front generalizing server with
  | nil => simp [SavesSucceed]
  | cons event rest ih => simp only [List.cons_append, SavesSucceed, ih, after_cons, and_assoc]

/-! ## The start of a session -/

theorem loadFolder_keeps (disk : Disk) (state : Server × List ClientMessage)
    (folder : String × String) :
    (loadFolder disk state folder).1.panel = state.1.panel ∧
      (loadFolder disk state folder).1.phase = state.1.phase := by
  unfold loadFolder
  dsimp only
  split <;> exact ⟨rfl, rfl⟩

theorem loadFolders_keeps (server : Server) (disk : Disk) :
    (server.loadFolders disk).1.panel = server.panel ∧
      (server.loadFolders disk).1.phase = server.phase := by
  have hfold : ∀ (folders : List (String × String)) (state : Server × List ClientMessage),
      (folders.foldl (loadFolder disk) state).1.panel = state.1.panel ∧
        (folders.foldl (loadFolder disk) state).1.phase = state.1.phase := by
    intro folders
    induction folders with
    | nil => intro state; exact ⟨rfl, rfl⟩
    | cons folder rest ih =>
      intro state
      rw [List.foldl_cons, (ih _).1, (ih _).2]
      exact loadFolder_keeps disk state folder
  exact hfold server.folders (server, [])

/-- Opening a session shows nothing yet. -/
theorem panel_of_opening (hmethod : event.message.method = "initialize")
    (hrequest : event.message.isRequest = true) :
    (({} : Server).take event).server.panel = {} := by
  obtain ⟨disk, reply, ⟨method, params, isRequest⟩⟩ := event
  obtain rfl : method = "initialize" := hmethod
  obtain rfl : isRequest = true := hrequest
  change ((({} : Server).startSession disk params).server.panel = {})
  unfold startSession
  split <;> rfl

theorem take_initialized (hrunning : server.phase = .running)
    (hmethod : event.message.method = "initialized") (hrequest : event.message.isRequest = false) :
    (server.take event).server.panel = server.panel ∧
      (server.take event).server.phase = .running := by
  obtain ⟨disk, reply, ⟨method, params, isRequest⟩⟩ := event
  obtain rfl : method = "initialized" := hmethod
  obtain rfl : isRequest = false := hrequest
  obtain ⟨hpanel, hphase⟩ := server.loadFolders_keeps disk
  cases params with
  | none => simp [take, step, hrunning]
  | some params =>
    have htake : server.take ⟨disk, reply, ⟨"initialized", some params, false⟩⟩ =
        server.notify disk "initialized" params := by simp [take, step, hrunning]
    rw [htake]
    simp only [notify]
    split
    · exact ⟨hpanel, hphase.trans hrunning⟩
    · exact ⟨hpanel, hphase.trans hrunning⟩
    · exact ⟨rfl, hrunning⟩

theorem follows_start {opening loading : Event}
    (hopening : opening.message.method = "initialize" ∧ opening.message.isRequest = true)
    (hrunning : (({} : Server).take opening).server.phase = .running)
    (hloading : loading.message.method = "initialized" ∧ loading.message.isRequest = false) :
    (({} : Server).after [opening, loading]).Follows none := by
  obtain ⟨hpanel, hphase⟩ := take_initialized hrunning hloading.1 hloading.2
  rw [panel_of_opening hopening.1 hopening.2] at hpanel
  rw [after_cons, after_cons, after_nil]
  refine ⟨hphase, by rw [hpanel]; rfl, by rw [hpanel]; rfl, by rw [hpanel]; rfl, ?_⟩
  intro key hkey
  rw [hpanel] at hkey
  cases hkey

/-! ## The panel after any run -/

theorem showsPanel_of_ok (hrunning : server.phase = .running) {place : Option DocumentPosition}
    (h : event.message.place? = some place) {findings : Findings}
    (hfound : (server.lookup event.disk place).outcome = .ok findings) :
    (server.take event).ShowsPanel := by
  rw [take_find hrunning h, apply_of_ok server hfound]
  exact ⟨findings, rfl, rfl⟩

/-- A toggle shows the panel if there is something to show, and answers null otherwise. -/
theorem Follows.showsPanel_of_toggle (h : server.Follows last) {flag : Flag}
    (hflag : event.message.flag? = some flag)
    (hsaved : (server.toggle event.disk flag).failure = none) :
    ((server.take event).response = .result .null ↔ last = none) ∧
      (last ≠ none → (server.take event).ShowsPanel) := by
  have hlatest := (h.toggle hsaved).latest
  rw [take_toggle h.running hflag hsaved]
  cases last with
  | none =>
    rw [Option.map_none] at hlatest
    simp [View.tree, hlatest, Json.ofOption]
  | some found =>
    rw [Option.map_some] at hlatest
    refine ⟨by simp [View.tree, hlatest, Json.ofOption, treeJson, Json.object], fun _ => ?_⟩
    exact ⟨found.findings, hlatest, by simp [View.tree, hlatest, Json.ofOption]⟩

/-- **The panel follows the lookups.** In a session that is open and has its folders loaded, after
any messages but those that load the folders again or end the session, and as long as every toggle
that has to be saved is saved:

* the options of the panel are those of the project it came from, if that is a loaded one;
* it shows the findings of the last lookup that succeeded, with the root and the workspace of that
  lookup, and nothing before the first;
* a lookup that fails changes nothing in it and answers null; one that succeeds answers the tree of
  what the panel then holds, and so does a toggle, which answers null exactly as long as no lookup
  has succeeded. -/
theorem panel_follows_lookups (opening loading : Event) (events : List Event)
    (hopening : opening.message.method = "initialize" ∧ opening.message.isRequest = true)
    (hrunning : (({} : Server).take opening).server.phase = .running)
    (hloading : loading.message.method = "initialized" ∧ loading.message.isRequest = false)
    (hmessages : ∀ event ∈ events, event.message.InSession)
    (hsaves : (({} : Server).after [opening, loading]).SavesSucceed events) :
    let start := ({} : Server).after [opening, loading]
    let server := start.after events
    let last := start.lastFound? events
    (∀ key, server.panel.workspace = some key → ∃ project, server.project? key = some project ∧
      server.panel.view.options = project.displayOptions) ∧
    server.panel.view.latest = last.map (·.findings) ∧
    server.panel.view.root = last.bind (·.root) ∧
    server.panel.workspace = last.bind (·.workspace) ∧
    ∀ front event back, events = front ++ event :: back →
      let before := start.after front
      (∀ place, event.message.place? = some place →
        (∀ failure, (before.lookup event.disk place).outcome = .error failure →
          (before.take event).server.panel = before.panel ∧
            (before.take event).response = .result .null) ∧
        ∀ findings, (before.lookup event.disk place).outcome = .ok findings →
          (before.take event).ShowsPanel) ∧
      ∀ flag, event.message.flag? = some flag →
        ((before.take event).response = .result .null ↔ start.lastFound? front = none) ∧
          (start.lastFound? front ≠ none → (before.take event).ShowsPanel) := by
  intro start server last
  have hstart : start.Follows none := follows_start hopening hrunning hloading
  have hserver := hstart.after hmessages hsaves
  rw [Option.or_none] at hserver
  refine ⟨hserver.options, hserver.latest, hserver.root, hserver.workspace, ?_⟩
  rintro front event back rfl before
  obtain ⟨hfront, hback⟩ := savesSucceed_append.1 hsaves
  have hbefore := hstart.after
    (fun other hother => hmessages other (List.mem_append_left _ hother)) hfront
  rw [Option.or_none] at hbefore
  refine ⟨fun place hplace => ⟨fun failure hfailed => ?_, fun findings hfound => ?_⟩,
    fun flag hflag => hbefore.showsPanel_of_toggle hflag (hback.1 flag hflag)⟩
  · obtain ⟨hsame, hnull⟩ := take_find_of_error hbefore.running hplace hfailed
    exact ⟨congrArg Server.panel hsame, hnull⟩
  · exact showsPanel_of_ok hbefore.running hplace hfound

/-- A toggle before the first lookup, a lookup in a loaded folder, and a toggle that is saved
there. -/
theorem panel_follows_lookups_in_folder :
    let disk : Disk := { entries := [(["w"], .directory), (["w", "a.ts"], .text "x=x")] }
    let event (method : String) (params : List (String × Json)) (isRequest : Bool) : Event :=
      ⟨disk, .shown true, ⟨method, some (.object params), isRequest⟩⟩
    let opening := event "initialize"
      [("capabilities", .object []), ("workspaceFolders",
        .arr [.object [("uri", .text "file:///w"), ("name", .text "w")]])] true
    let loading := event "initialized" [] false
    let run (command : CommandName) (arguments : List Json) : Event :=
      event "workspace/executeCommand"
        [("command", .text command.text), ("arguments", .arr arguments)] true
    let find := run .findAllReferences
      [.object [("textDocument", .object [("uri", .text "file:///w/a.ts")]),
        ("position", positionJson ⟨0, 0⟩)]]
    let toggle := run (.toggle .showFullPath) []
    ∃ start server, start = ({} : Server).after [opening, loading] ∧
      server = start.after [toggle, find, toggle] ∧
      (({} : Server).take opening).server.phase = .running ∧
      start.SavesSucceed [toggle, find, toggle] ∧
      (start.take toggle).response = .result .null ∧
      ((start.after [toggle, find]).take toggle).ShowsPanel ∧
      server.panel.workspace = some "file:///w" ∧
      ∃ project, server.project? "file:///w" = some project ∧
        server.panel.view.options = project.displayOptions := by
  intro disk event opening loading run find toggle
  have hrunning : (({} : Server).take opening).server.phase = .running := by decide +kernel
  have hflag : toggle.message.flag? = some .showFullPath := by decide +kernel
  obtain ⟨hsaves, hfound, hworkspace⟩ :
      (({} : Server).after [opening, loading]).SavesSucceed [toggle, find, toggle] ∧
      ((({} : Server).after [opening, loading]).lastFound? [toggle, find]).isSome = true ∧
      ((({} : Server).after [opening, loading]).after [toggle, find, toggle]).panel.workspace =
        some "file:///w" := by decide +kernel
  obtain ⟨hoptions, -, -, -, hsteps⟩ := panel_follows_lookups opening loading [toggle, find, toggle]
    ⟨rfl, rfl⟩ hrunning ⟨rfl, rfl⟩ (by decide) hsaves
  refine ⟨_, _, rfl, rfl, hrunning, hsaves, ?_, ?_, hworkspace, hoptions _ hworkspace⟩
  · exact (((hsteps [] toggle [find, toggle] rfl).2 _ hflag).1).2 rfl
  · refine ((hsteps [toggle, find] toggle [] rfl).2 _ hflag).2 fun hnone => ?_
    rw [hnone] at hfound
    cases hfound

end Usages.Server
