import Conformance.Pattern.Search

namespace Conformance.Document

def inlineCode : Pattern :=
  .chain [.text "`", .most (· != '`'), .text "`"]

def link : Pattern :=
  .chain [.optional (.text "!"), .text "[", .most (· != ']'), .text "](",
    .group 1 (.mostOne (· != ')')), .text ")"]

def codeSpan : Pattern :=
  .chain [.text "`", .group 1 (.mostOne fun c => c != '`' && !Text.isBlank c), .text "`"]

def placeholder : Pattern :=
  .chain [.text "<", .mostOne Text.isWord, .text ">"]

/-- The targets of the links of a line, without the blanks around them. Inline code is taken out of
the line first. -/
def linkTargets (line : List Char) : List (List Char) :=
  (link.findAll (inlineCode.removeAll line)).filterMap fun m => (m.group? 1).map Text.trim

def codeSpans (line : List Char) : List (List Char) :=
  (codeSpan.findAll line).filterMap (·.group? 1)

def isPlaceholder (path : List Char) : Bool :=
  placeholder.occursIn path

def isWildcard (path : List Char) : Bool :=
  path.contains '*'

def hasExtension (path : List Char) : Bool :=
  let file := Text.afterLast (· == '/') path
  let tail := Text.afterLast (· == '.') file
  !tail.isEmpty && tail.length + 1 < file.length

def isRooted (roots : List String) (path : List Char) : Bool :=
  roots.any fun root =>
    match Text.afterLead? root.toList path with
    | some rest => Text.startsWith rest "/"
    | none => false

/-- The code spans of a line that name one file or directory below one of the top directories; only
files with an extension if that is asked for. -/
def rootedPaths (roots : List String) (needsExtension : Bool) (line : List Char) :
    List (List Char) :=
  (codeSpans line).filter fun path =>
    isRooted roots path && !isPlaceholder path && !isWildcard path &&
      (!needsExtension || hasExtension path)

def isElsewhere (target : List Char) : Bool :=
  ["http://", "https://", "mailto:", "#"].any (Text.startsWith target) || target.contains '<' ||
    isWildcard target

/-- The target without a title behind it: from a blank and a double quote on, or else from a blank
and a single quote on. -/
def withoutTitle (target : List Char) : List Char :=
  match Text.beforeFirst? " \"".toList target with
  | some path => path
  | none => (Text.beforeFirst? " '".toList target).getD target

def localPath? (target : List Char) : Option (List Char) :=
  if isElsewhere target then none
  else
    let path := Text.trim (withoutTitle (target.takeWhile (· != '#')))
    if path.isEmpty then none else some path

end Conformance.Document
