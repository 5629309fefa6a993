import Discode.Redaction

/-!
# Splitting a reply into Discord messages
-/

set_option autoImplicit false

namespace Discode

open Regex

def maxDiscordMessageLen : ℕ := 2000

def newline : CodePoint := 0x0a

/-- `_FENCE_LINE`; the group is the language tag. -/
def fenceLine (u : WordChars) : Rule CodePoint where
  keep := all [.look fun x _ ↦ x.all (· == newline), chars (oneOfChars " \t"), literal "```"]
  secret := chars fun c ↦ u.isWord c || oneOfChars "+#.-" c

def closeFence : PyStr := pyStr "\n```"

/-- `_open_fence`: a bare fence closes an open block, anything else opens one. -/
def openFence (u : WordChars) (text : PyStr) : Option PyStr :=
  ((fenceLine u).pieces text).foldl (fun opener piece ↦
    match piece with
    | .copy _ => opener
    | .hit _ tag => if opener.isSome then none else some (pyStr "```" ++ tag.take 20)) none

/-- `content.rfind("\n", 0, limit)`. -/
def rfindNewline (content : PyStr) (limit : ℕ) : Option ℕ :=
  let head := content.take limit
  (head.reverse.findIdx? (· == newline)).map fun j ↦ head.length - 1 - j

/-- `_split_point`. -/
def splitPoint (content : PyStr) (limit floor : ℕ) : ℕ :=
  match rfindNewline content limit with
  | some i => if floor < i then i else limit
  | none => limit

/-- The loop of `build_message`; the first argument bounds the number of chunks. -/
def buildMessageLoop (u : WordChars) : ℕ → ℕ → PyStr → List PyStr
  | 0, _, content => if content = [] then [] else [content]
  | n + 1, reopened, content =>
      if content.length ≤ maxDiscordMessageLen then if content = [] then [] else [content]
      else
        let first := splitPoint content maxDiscordMessageLen reopened
        let splitAt :=
          if (openFence u (content.take first)).isSome then
            splitPoint content (maxDiscordMessageLen - closeFence.length) reopened
          else first
        let rest := content.drop splitAt
        match openFence u (content.take splitAt) with
        | none => content.take splitAt :: buildMessageLoop u n 0 rest
        | some fence =>
            let separator := if rest.head? = some newline then [] else [newline]
            (content.take splitAt ++ closeFence) ::
              buildMessageLoop u n fence.length (fence ++ separator ++ rest)

/-- `build_message`.  A chunk shortens the content, or reopens a block for the first time. -/
def buildMessage (u : WordChars) (content : PyStr) : List PyStr :=
  buildMessageLoop u (2 * content.length + 1) 0 content

end Discode
