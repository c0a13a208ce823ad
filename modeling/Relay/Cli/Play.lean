import Relay.Cli.Finish
import Relay.Playground.Invoke
import Relay.Session.Basic
import Relay.Session.History
import Relay.Tool.Invoke

/-!
# The program for sessions

`jatti-play` sends programs to a playground.  With a file it sends that one and ends; else it holds
a session on what is typed.  `start` brings the program up to where it waits for input, `type` and
`close` give it input, and `settle` lets what is in flight come to its end.  The store of the key is
a file in the user's home, so the state of the store is the disk.
-/

namespace Relay.Cli

open Files (Disk Failure)

/-- What the program is asked for. -/
structure PlayArguments where
  endpoint : Option String
  apiKey : Option String
  file : Option Path
  config : Option Path
  historyFile : Option Path
  deriving DecidableEq, Repr

/-- The options of the program. -/
def playOptions : List OptionSpec :=
  [⟨"endpoint", some 'e', .text, false, "Playground base URL (e.g., http://127.0.0.1:8000)"⟩,
    ⟨"api-key", none, .text, false,
      "API key; stored for later sessions, an empty value clears it"⟩,
    ⟨"file", some 'f', .path, false, "Run this file once and exit"⟩, configOption,
    ⟨"history-file", none, .path, false, "History file path"⟩, verboseOption, helpOption none]

/-- The texts of the program for sessions. -/
def playTexts : SelfDescription where
  help := fun _ =>
    { about := "Jatti playground client"
      usage := "jatti-play [OPTIONS]"
      commands := []
      operands := []
      options := playOptions }
  version := ""

/-- Reads the arguments of the program. -/
def PlayArguments.parse (args : List String) : Except Stop PlayArguments := do
  let a ← readAll playOptions 0 args
  let path? (name : String) : Option Path := (a.value? name).map Path.ofString
  return {
    endpoint := a.value? "endpoint"
    apiKey := a.value? "api-key"
    file := path? "file"
    config := path? "config"
    historyFile := path? "history-file" }

/-- The user's home. -/
def home? (vars : Variables) : Option Path :=
  match vars.get? "HOME" with
  | some text => if text = "" then none else some (.ofString text)
  | none => none

/-- A path in the user's home, or in the working directory of a user without one. -/
def inHome (vars : Variables) (path : String) : Path :=
  match home? vars with
  | some home => home.join (.ofString path)
  | none => .ofString path

/-- Where keys are stored. -/
def storagePath (vars : Variables) : Path := inHome vars ".jatti/storage.json"

/-- Where the history is kept when nothing else is asked for. -/
def historyPath (vars : Variables) : Path := inHome vars ".jatti_play_history"

/-- A program that holds a session. -/
structure Play where
  session : Session Disk
  store : Store Disk
  settings : RemoteSettings
  historyFile : Path
  history : Session.History
  /-- What was typed of a line that has not ended. -/
  typed : Bytes
  /-- Nothing more is read. -/
  closed : Bool
  /-- The program has said goodbye. -/
  gone : Bool

namespace Play

/-- The disk. -/
def disk (p : Play) : Disk := p.session.controller.credential.state

/-- The program with the disk changed. -/
def withDisk (p : Play) (disk : Disk) : Play :=
  let c := p.session.controller
  { p with session := { p.session with
      controller := { c with credential := { c.credential with state := disk } } } }

/-- What the program says first. -/
def banner (endpoint : String) : List Line :=
  [.out (Text.ofLines
    ["jatti-play v0.1.0",
      "Endpoint: " ++ endpoint,
      "Lines are added to the program. :run to execute (:r runs even while busy),",
      ":show to print it, :reset to start empty, :sample <name>, :samples,",
      ":key <value>, :clear, :quit.",
      ""])]

/-- What the program says last. -/
def goodbye : List Line := [.out "\nGoodbye!\n"]

/-- A warning about the history. -/
def historyWarning (verb : String) (failure : Failure) : List Line :=
  [.err ("[warning] Failed to " ++ verb ++ " history: " ++ failure.message ++ "\n")]

/-- The lines that are written among deeds. -/
def lines (deeds : List Session.Deed) : List Line :=
  deeds.filterMap fun
    | .write l => some l
    | .invoke _ _ => none

/-- The program after a step of its session. -/
def step (p : Play) (s : Session.Step) : Play × List Line :=
  let (session, deeds) := p.session.step p.store s
  ({ p with session }, lines deeds)

/-- Stops reading: the history is saved. -/
def stopReading (p : Play) : Play × List Line :=
  match p.history.save p.disk p.historyFile with
  | .ok disk => ({ p.withDisk disk with closed := true }, [])
  | .error e => ({ p with closed := true }, historyWarning "save" e)

/-- The program after a line was read. -/
def readLine (p : Play) (text : String) : Play × List Line :=
  let input := Session.Input.parse text
  let history := if input.isCommand then p.history.add (Text.trim text) else p.history
  let (p, ls) := { p with history }.step (.line text)
  if input = .quit then
    let (p, more) := p.stopReading
    (p, ls ++ more)
  else (p, ls)

/-- The end of the input, or of what can be read of it. -/
def endInput (p : Play) (before : List Line) : Play × List Line :=
  let (p, ls) := p.stopReading
  let (p, more) := p.step .ended
  (p, before ++ ls ++ more)

/-- Reads a line in octets, without its line break; a carriage return in front of that does not
belong to the line either.  A line that is no text ends the reading. -/
def readOctets (p : Play) (octets : Bytes) : Play × List Line :=
  let octets :=
    if octets.getLast? = some (Bytes.ascii '\r') then octets.dropLast else octets
  match Utf8.decode? octets with
  | some text => p.readLine text
  | none =>
    p.endInput [.err ("[error] Readline error: " ++ Failure.notText.message ++ "\n")]

/-- Reads whole lines in order, as long as anything is read. -/
def readAll : Play → List Bytes → Play × List Line
  | p, [] => (p, [])
  | p, l :: ls =>
    if p.closed then (p, [])
    else
      let (p, first) := p.readOctets l
      let (p, rest) := readAll p ls
      (p, first ++ rest)

/-- The program after octets were typed. -/
def type (p : Play) (octets : Bytes) : Play × List Line :=
  let pieces := Bytes.splitOn Bytes.newline (p.typed ++ octets)
  { p with typed := pieces.getLast?.getD [] }.readAll pieces.dropLast

/-- The program after its input ended; a line without its break is read first. -/
def close (p : Play) : Play × List Line :=
  if p.closed then (p, [])
  else
    let (p, ls) :=
      if p.typed = [] then (p, [])
      else
        match Utf8.decode? p.typed with
        | some text => p.readLine text
        | none => p.endInput [.err ("[error] Readline error: " ++ Failure.notText.message ++ "\n")]
    if p.closed then (p, ls) else p.endInput ls

/-- Lets runs go to their end; `report` is what the executor says to a request. -/
def finishRuns (report : Disk → Request → Report) : Play → List (Nat × Run) → Play × List Line
  | p, [] => (p, [])
  | p, (n, run) :: rest =>
    let request : Option Request :=
      match run with
      | .accepted r | .waiting r => some r
      | _ => none
    let (p, first) := p.step (.poll n (request.map (report p.disk)))
    let (p, more) := finishRuns report p rest
    (p, first ++ more)

/-- Lets everything in flight come to its end, and then says goodbye if nothing more is read. -/
def settle (network : Network) (p : Play) : Play × List Line :=
  let report (disk : Disk) (r : Request) : Report := invokeRemote network p.settings disk r
  let (p, ls) := finishRuns report p p.session.runs
  if p.closed && p.session.isOver && !p.gone then ({ p with gone := true }, ls ++ goodbye)
  else (p, ls)

/-- Sends a program once. -/
def runOnce (network : Network) (settings : RemoteSettings) (credential : Credential Disk)
    (code : String) : Finish :=
  let (controller, run, events) := (Controller.new credential).start .button code
  let report := invokeRemote network settings credential.state (.typed code credential.header)
  let (controller, progress, effects) := controller.advance run (some report)
  let code : Int := match progress with
    | .done (some outcome) => if outcome.isSuccess then 0 else 1
    | _ => 1
  finished controller.credential.state
    (ConsoleStyle.playground.shownAll (events ++ Effect.events effects)) code

/-- The key to start with: one from the arguments is stored, one from the settings is for this
session. -/
def startKey (store : Store Disk) (disk : Disk) (a : PlayArguments) (s : Settings) :
    Except StoreError (Credential Disk) :=
  let credential := Credential.load store disk
  match a.apiKey with
  | some key =>
    match credential.set store key with
    | (credential, .ok _) => .ok credential
    | (_, .error e) => .error e
  | none =>
    match s.apiKey with
    | some key => .ok (credential.setForSession key)
    | none => .ok credential

/-- A program that holds a session, and what it says first. -/
def interactive (settings : RemoteSettings) (store : Store Disk) (credential : Credential Disk)
    (historyFile : Path) : Play × List Line :=
  let (history, fault) := Session.History.start credential.state historyFile
  ({ session := .new credential
     store
     settings
     historyFile
     history
     typed := []
     closed := false
     gone := false },
    banner settings.endpoint ++ (fault.map (historyWarning "load")).getD [])

/-- Brings the program up: it ends at once, or it waits for input. -/
def start (network : Network) (world : World) (args : List String) :
    Finish ⊕ (Play × List Line) :=
  match PlayArguments.parse args with
  | .error s => .inl (stopped world.disk playTexts s)
  | .ok a =>
    match Settings.load world.disk world.vars a.config with
    | .error e => .inl (failed world.disk (settingsReport e))
    | .ok (settings, vars) =>
      let remote : RemoteSettings := ⟨a.endpoint.getD settings.endpoint, settings.maxResponseBytes⟩
      let store := fileStore (storagePath vars)
      match startKey store world.disk a settings with
      | .error e => .inl (failed world.disk (storeReport e))
      | .ok credential =>
        match a.file with
        | some file =>
          match credential.state.readText file with
          | .error e => .inl (failed credential.state e.report)
          | .ok code => .inl (runOnce network remote credential code)
        | none =>
          .inr (interactive remote store credential (a.historyFile.getD (historyPath vars)))

end Play

/-- The program for sessions, on an input that is known in advance. -/
def runPlay (network : Network) (world : World) (args : List String) (input : Bytes) : Finish :=
  match Play.start network world args with
  | .inl f => f
  | .inr (p, first) =>
    let (p, typed) := p.type input
    let (p, closing) := p.close
    let (p, last) := p.settle network
    finished p.disk (first ++ typed ++ closing ++ last) 0

end Relay.Cli
