import Mathlib.Data.List.Sort
import Discode.Library.GreedyPacking
import Discode.Library.KeyedTable
import Discode.Text

/-!
# The help text

`/help` lists every leaf of the command tree: the top-level commands in one section, every
group in a section of its own, and as many sections as there is room for in one message.
-/

set_option autoImplicit false

/-- `d[k] = v` of a dict: a new key comes last, an old one keeps its place. -/
def KeyedTable.setItem {K R : Type*} [DecidableEq K] (t : KeyedTable K R) (k : K) (r : R) :
    KeyedTable K R :=
  (t.insert? k r).getD (t.modify k fun _ ↦ r)

namespace Discode

namespace HelpText

/-! ## The command tree -/

structure Parameter where
  name : PyStr
  required : Bool

inductive Command where
  | leaf (name : PyStr) (parameters : List Parameter) (description : Option PyStr)
  | group (name : PyStr) (commands : List Command)

def Command.name : Command → PyStr
  | .leaf name _ _ => name
  | .group name _ => name

structure CommandTree where
  globalCommands : List Command
  guildCommands : ℕ → List Command

/-- A leaf of the tree as `_walk_commands` describes it. -/
structure Entry where
  path : List PyStr
  args : PyStr
  description : PyStr

def Parameter.usage (p : Parameter) : PyStr :=
  if p.required then pyStr "<" ++ p.name ++ pyStr ">" else pyStr "[" ++ p.name ++ pyStr "]"

mutual

def walkRecursive : Command → List PyStr → List Entry
  | .group name commands, path => walkChildren commands (path ++ [name])
  | .leaf name parameters description, path =>
      [{ path := path ++ [name]
         args := (pyStr " ").intercalate (parameters.map Parameter.usage)
         description := description.getD [] }]

/-- The loop of `_walk_recursive` over the commands of a group. -/
def walkChildren : List Command → List PyStr → List Entry
  | [], _ => []
  | command :: commands, path => walkRecursive command path ++ walkChildren commands path

end

/-- `{command.name: command for command in …}`, over the entries of an older dict. -/
def byName (old : KeyedTable PyStr Command) (commands : List Command) :
    KeyedTable PyStr Command :=
  commands.foldl (fun d command ↦ d.setItem command.name command) old

/-- The commands of a guild take the place of global ones of the same name. -/
def walkCommands (tree : CommandTree) (guildId : Option ℕ) : List Entry :=
  let commandsByName := byName .empty tree.globalCommands
  let commandsByName := match guildId with
    | none => commandsByName
    | some guild => byName commandsByName (tree.guildCommands guild)
  walkChildren (commandsByName.entries.map Prod.snd) []

/-! ## One line -/

/-- `_HELP_PERM_TAGS`. -/
def permTags : List (List String × String) :=
  [(["root", "alias", "set"], "admin"), (["root", "alias", "remove"], "admin"),
    (["root", "add"], "admin if alias"), (["tool", "register"], "platform admin"),
    (["tool", "update"], "platform admin"), (["tool", "enable"], "platform admin"),
    (["tool", "disable"], "platform admin"), (["tool", "remove"], "platform admin"),
    (["setup", "map", "set"], "admin"), (["setup", "map", "remove"], "admin"),
    (["setup", "admin-role", "set"], "admin"), (["session", "config", "set"], "admin"),
    (["session", "config", "get"], "admin"), (["session", "config", "clear"], "admin"),
    (["session", "config", "clear-all"], "admin"), (["invite"], "owner+"),
    (["session", "invite"], "owner+"), (["stop"], "owner+"), (["archive"], "owner+"),
    (["session", "archive"], "owner+"), (["resume"], "owner+"), (["session", "resume"], "owner+"),
    (["restart"], "owner+"), (["session", "restart"], "owner+"), (["send"], "member+")]

/-- `_HELP_PERM_TAGS.get(path, "")`. -/
def permTag (path : List PyStr) : PyStr :=
  ((permTags.find? fun e ↦ e.1.map pyStr = path).map fun e ↦ pyStr e.2).getD []

/-- `_HELP_DESC_MAX`. -/
def helpDescMax : ℕ := 60

/-- `_HELP_CHUNK_LIMIT`; Discord itself refuses more than 2000 characters. -/
def helpChunkLimit : ℕ := 1900

def truncate (s : PyStr) : PyStr :=
  if s.length ≤ helpDescMax then s else s.take (helpDescMax - 1) ++ pyStr "…"

def formatLeafLine (entry : Entry) (indent : PyStr) : PyStr :=
  let head := rstrip (indent ++ entry.path.getLastD [] ++ pyStr " " ++ entry.args)
  let tag := permTag entry.path
  let tagPart := if tag = [] then [] else pyStr "  [" ++ tag ++ pyStr "]"
  head ++ pyStr "    " ++ truncate entry.description ++ tagPart

/-! ## The sections -/

/-- `sorted(entries, key=lambda e: e["path"])`. -/
def sortedByPath (entries : List Entry) : List Entry :=
  entries.insertionSort fun e e' ↦ e.path ≤ e'.path

/-- The leaves below the top level under the name of their group. -/
def groupedLeaves (leaves : List Entry) : KeyedTable PyStr (List Entry) :=
  leaves.foldl (fun grouped e ↦ match e.path with
    | groupName :: _ :: _ => grouped.setItem groupName ((grouped.get? groupName).getD [] ++ [e])
    | _ => grouped) .empty

/-- The indent of a leaf of a group: two blanks and the subgroups on its path. -/
def childIndent (path : List PyStr) : PyStr :=
  let midPath := path.tail.dropLast
  pyStr "  " ++ if midPath = [] then [] else (pyStr ".").intercalate midPath ++ pyStr " "

def groupBody (groupName : PyStr) (children : List Entry) : List PyStr :=
  (pyStr "/" ++ groupName) ::
    (sortedByPath children).map fun e ↦ formatLeafLine e (childIndent e.path)

def sections (leaves : List Entry) : List (Option PyStr × List PyStr) :=
  let topLevel := leaves.filter fun e ↦ e.path.length = 1
  let grouped := groupedLeaves leaves
  (if topLevel = [] then [] else
    [(none, (sortedByPath topLevel).map fun e ↦ formatLeafLine e (pyStr "/"))]) ++
  ((grouped.entries.map Prod.fst).insertionSort (· ≤ ·)).map fun groupName ↦
    (some groupName, groupBody groupName ((grouped.get? groupName).getD []))

/-! ## The chunks -/

/-- `HEADER.rstrip()`. -/
def header : PyStr := rstrip (pyStr "Discode commands\n")

def wrapperOverhead : ℕ := (pyStr "```\n").length + (pyStr "\n```").length

def wrapChunk (lines : List PyStr) : PyStr :=
  pyStr "```\n" ++ (pyStr "\n\n").intercalate lines ++ pyStr "\n```"

def sectionText (body : List PyStr) : PyStr := (pyStr "\n").intercalate body

/-- The variables of the packing loop. -/
structure Packing where
  chunks : List PyStr
  currentLines : List PyStr
  currentLen : ℕ

def Packing.start : Packing where
  chunks := []
  currentLines := [header]
  currentLen := header.length + wrapperOverhead

def Packing.flush (s : Packing) : Packing where
  chunks := s.chunks ++ [wrapChunk s.currentLines]
  currentLines := []
  currentLen := wrapperOverhead

/-- The body of the loop over the sections. -/
def Packing.add (s : Packing) (text : PyStr) : Packing :=
  let sectionLen := text.length + 2
  let s := if helpChunkLimit < s.currentLen + sectionLen ∧ 1 < s.currentLines.length then s.flush
    else s
  { s with
    currentLines := s.currentLines ++ [text]
    currentLen := s.currentLen + sectionLen }

def Packing.finish (s : Packing) : List PyStr :=
  if s.currentLines = [] then s.chunks else s.chunks ++ [wrapChunk s.currentLines]

/-- The texts of the sections of a tree, in the order of the loop. -/
def sectionTexts (tree : CommandTree) (guildId : Option ℕ) : List PyStr :=
  (sections (walkCommands tree guildId)).map fun s ↦ sectionText s.2

def renderHelpText (tree : CommandTree) (guildId : Option ℕ) : List PyStr :=
  ((sectionTexts tree guildId).foldl Packing.add .start).finish

end HelpText

end Discode
