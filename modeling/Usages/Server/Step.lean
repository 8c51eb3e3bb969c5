/-
One step of a session: a message comes in, and the server answers it, sends messages of its own and
may write to the disk.

A session starts with `initialize` and ends with `exit`. Before the start requests are refused and
notifications dropped; so they are after `shutdown`. A request that needs the client to do
something gets the client's reply with it.
-/
import Usages.Server.Params
import Usages.Server.Render

namespace Usages.Server

/-- A message of the client. A request is answered, a notification is not. -/
structure Message where
  method : String
  params : Option Json := none
  isRequest : Bool

/-- Why a request is refused. -/
inductive Refusal where
  | notInitialized
  | invalidRequest
  | unknownMethod
  | invalidParams
  deriving Repr, DecidableEq

def Refusal.code : Refusal → Int
  | notInitialized => -32002
  | invalidRequest => -32600
  | unknownMethod => -32601
  | invalidParams => -32602

inductive Response where
  | result (value : Json)
  | refused (refusal : Refusal)
  /-- A notification has no answer. -/
  | none
  /-- The session is over. -/
  | exited

/-- The client's reply when it is asked to show a document. -/
inductive Reply where
  | shown (success : Bool)
  | failed (message : String)
  deriving Repr, DecidableEq

/-- What a step leaves behind. -/
structure Outcome where
  server : Server
  disk : Disk
  response : Response
  messages : List ClientMessage := []

/-- Show an update of the panel: a tree is answered, all else is a message. -/
def report (server : Server) (disk : Disk) : ViewUpdate → Outcome
  | .rendered tree => { server, disk, response := .result (server.treeJson disk tree) }
  | .info text => { server, disk, response := .result .null, messages := [.notice .info text] }
  | .failed text => { server, disk, response := .result .null, messages := [.notice .error text] }

def runFind (server : Server) (disk : Disk) (arguments : List Json) : Outcome :=
  let (server, update) := server.findAll disk (arguments.head?.bind Params.documentPosition?)
  server.report disk update

def runOpen (server : Server) (disk : Disk) (reply : Reply) (arguments : List Json) : Outcome :=
  match arguments.head?.bind Params.location? with
  | none =>
    { server, disk, response := .result .null
      messages := [.notice .error "Error: missing reference location"] }
  | some location =>
    match reply with
    | .shown success =>
      { server, disk, response := .result (.bool success), messages := [.showDocument location] }
    | .failed text =>
      { server, disk, response := .result .null
        messages := [.showDocument location, .notice .error ("Error: Server error: " ++ text)] }

def runToggle (server : Server) (disk : Disk) (flag : Flag) : Outcome :=
  let toggled := server.toggle disk flag
  match toggled.failure with
  | some failure =>
    { server := toggled.server, disk := toggled.disk, response := .result .null
      messages := [.notice .error ("Error: " ++ failure.message)] }
  | none =>
    let tree := toggled.server.panel.view.tree
    { server := toggled.server, disk := toggled.disk
      response := .result (.ofOption (tree.map (toggled.server.treeJson toggled.disk))) }

/-- Run a command; an unknown one does nothing. -/
def runCommand (server : Server) (disk : Disk) (reply : Reply) (command : Params.Command) :
    Outcome :=
  match CommandName.ofText? command.name with
  | some .findAllReferences => server.runFind disk command.arguments
  | some .openReference => server.runOpen disk reply command.arguments
  | some (.toggle flag) => server.runToggle disk flag
  | none => { server, disk, response := .result .null }

/-- Load the project of a folder. -/
def loadFolder (disk : Disk) (state : Server × List ClientMessage) (folder : String × String) :
    Server × List ClientMessage :=
  let (server, messages) := state
  match Project.ofRoot disk folder.2 with
  | .error failure =>
    (server, messages ++ [.logEntry .error ("Failed to load config: " ++ failure.message)])
  | .ok project =>
    let loaded := match project.configPath with
      | some path => [ClientMessage.logEntry .info ("Loaded config from " ++ path)]
      | none => []
    let others := server.projects.filter (·.1 != folder.1)
    ({ server with projects := others ++ [(folder.1, project)] }, messages ++ loaded)

/-- Load the projects of all folders. -/
def loadFolders (server : Server) (disk : Disk) : Server × List ClientMessage :=
  server.folders.foldl (loadFolder disk) (server, [])

/-- Change what is known of the document at an identifier. -/
def updateDocuments (server : Server) (uri : Uri)
    (change : OpenDocuments → String → OpenDocuments) : Server :=
  match uri.file? with
  | some file => { server with documents := change server.documents file }
  | none => server

/-- A notification of a running session. Parameters that cannot be read make it void. -/
def notify (server : Server) (disk : Disk) (method : String) (params : Json) : Outcome :=
  let quiet (server : Server) : Outcome := { server, disk, response := .none }
  match method with
  | "initialized" =>
    if params matches .obj _ | .arr [] then
      let (server, messages) := server.loadFolders disk
      { server, disk, response := .none, messages }
    else quiet server
  | "textDocument/didOpen" =>
    match Params.opened? params with
    | some (uri, text) => quiet (server.updateDocuments uri (·.update · text))
    | none => quiet server
  | "textDocument/didChange" =>
    match Params.changed? params with
    | some (uri, texts) =>
      match texts.getLast? with
      | some text => quiet (server.updateDocuments uri (·.update · text))
      | none => quiet server
    | none => quiet server
  | "textDocument/didClose" =>
    match Params.closed? params with
    | some uri => quiet (server.updateDocuments uri .close)
    | none => quiet server
  | _ => quiet server

/-- Notifications that may not come as requests. -/
def notificationMethods : List String :=
  ["initialized", "textDocument/didOpen", "textDocument/didChange", "textDocument/willSave",
    "textDocument/didSave", "textDocument/didClose", "notebookDocument/didOpen",
    "notebookDocument/didChange", "notebookDocument/didSave", "notebookDocument/didClose",
    "workspace/didChangeConfiguration", "workspace/didChangeWorkspaceFolders",
    "workspace/didCreateFiles", "workspace/didRenameFiles", "workspace/didDeleteFiles",
    "workspace/didChangeWatchedFiles", "window/workDoneProgress/cancel", "$/cancelRequest"]

/-- Requests for something at a position, which the server knows of but does not answer. -/
def positionMethods : List String :=
  ["textDocument/declaration", "textDocument/definition", "textDocument/typeDefinition",
    "textDocument/implementation", "textDocument/prepareCallHierarchy",
    "textDocument/prepareTypeHierarchy", "textDocument/documentHighlight", "textDocument/hover",
    "textDocument/moniker", "textDocument/completion", "textDocument/signatureHelp",
    "textDocument/prepareRename", "textDocument/linkedEditingRange"]

/-- Requests about a document, which the server knows of but does not answer. -/
def documentMethods : List String :=
  ["textDocument/documentLink", "textDocument/codeLens", "textDocument/foldingRange",
    "textDocument/documentSymbol", "textDocument/semanticTokens/full",
    "textDocument/documentColor", "textDocument/diagnostic"]

/-- Further requests that the server knows of but does not answer. -/
def otherMethods : List String :=
  ["textDocument/willSaveWaitUntil", "callHierarchy/incomingCalls", "callHierarchy/outgoingCalls",
    "typeHierarchy/supertypes", "typeHierarchy/subtypes", "documentLink/resolve",
    "codeLens/resolve", "textDocument/selectionRange", "textDocument/semanticTokens/full/delta",
    "textDocument/semanticTokens/range", "textDocument/inlineValue", "textDocument/inlayHint",
    "inlayHint/resolve", "completionItem/resolve", "workspace/diagnostic",
    "textDocument/codeAction", "codeAction/resolve", "textDocument/colorPresentation",
    "textDocument/formatting", "textDocument/rangeFormatting", "textDocument/onTypeFormatting",
    "textDocument/rename", "workspace/symbol", "workspaceSymbol/resolve",
    "workspace/willCreateFiles", "workspace/willRenameFiles", "workspace/willDeleteFiles"]

/-- A request the server does not answer: its parameters are still read first. -/
def unanswered (method : String) (params : Option Json) : Refusal :=
  match params with
  | none => .invalidParams
  | some params =>
    if positionMethods.contains method then
      if (Params.documentPosition? params).isSome then .unknownMethod else .invalidParams
    else if documentMethods.contains method then
      if ((Params.member? params "textDocument").bind Params.document?).isSome then .unknownMethod
      else .invalidParams
    else .unknownMethod

/-- The start of a session. -/
def startSession (server : Server) (disk : Disk) (params : Option Json) : Outcome :=
  match server.phase, params.bind Params.start? with
  | .created, some start =>
    { server := { server with
        phase := .running
        encoding := start.encoding
        folders := start.folders }
      disk
      response := .result (capabilitiesJson start.encoding) }
  | .created, none => { server, disk, response := .refused .invalidParams }
  | _, _ => { server, disk, response := .refused .invalidRequest }

/-- A request of a running session. -/
def answer (server : Server) (disk : Disk) (reply : Reply) (method : String)
    (params : Option Json) : Outcome :=
  let refuse (refusal : Refusal) : Outcome := { server, disk, response := .refused refusal }
  match method with
  | "shutdown" =>
    if params.isSome then refuse .invalidParams
    else { server := { server with phase := .shutDown }, disk, response := .result .null }
  | "textDocument/references" =>
    match params.bind Params.references? with
    | none => refuse .invalidParams
    | some (place, includeDeclaration) =>
      let found := (server.references? disk place includeDeclaration).map fun locations =>
        Json.arr (locations.map locationJson)
      { server, disk, response := .result (.ofOption found) }
  | "workspace/executeCommand" =>
    match params.bind Params.command? with
    | none => refuse .invalidParams
    | some command => server.runCommand disk reply command
  | method =>
    if notificationMethods.contains method then refuse .invalidRequest
    else refuse (unanswered method params)

/-- The server knows what a request with this method is for. -/
def isKnown (method : String) : Bool :=
  ["shutdown", "textDocument/references", "workspace/executeCommand"].contains method ||
    notificationMethods.contains method || positionMethods.contains method ||
    documentMethods.contains method || otherMethods.contains method

/-- Methods of this form may be passed over in silence. -/
def isOptional (method : String) : Bool :=
  ['$', '/'].isPrefixOf method.toList

/-- A request. -/
def request (server : Server) (disk : Disk) (reply : Reply) (method : String)
    (params : Option Json) : Outcome :=
  let refuse (refusal : Refusal) : Outcome := { server, disk, response := .refused refusal }
  if method == "initialize" then server.startSession disk params
  else if !isKnown method then
    if isOptional method then { server, disk, response := .none } else refuse .unknownMethod
  else
    match server.phase with
    | .running => server.answer disk reply method params
    | .created => refuse .notInitialized
    | _ => refuse .invalidRequest

/-- Take a message. -/
def step (server : Server) (disk : Disk) (reply : Reply) (message : Message) : Outcome :=
  let quiet (server : Server) : Outcome := { server, disk, response := .none }
  if server.phase = .exited then { server, disk, response := .exited }
  else if message.method == "exit" then quiet { server with phase := .exited }
  else if message.isRequest then server.request disk reply message.method message.params
  else if server.phase = .running then
    match message.params with
    | some params => server.notify disk message.method params
    | none => quiet server
  else quiet server

end Usages.Server
