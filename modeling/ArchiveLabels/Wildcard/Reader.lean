import ArchiveLabels.Wildcard.Basic

/-!
# Reading wildcards

`Wildcard.parse` reads a wildcard : besides `?` and `*` there are classes in brackets, groups of
branches in braces, and characters behind a backslash, which stand for themselves. A doubled star
between slashes stands for directories; elsewhere it is two stars.
-/

namespace ArchiveLabels

/-- What keeps a text from being a wildcard. -/
inductive WildcardFault where
  /-- A class has no end. -/
  | openClass
  /-- The end of a range comes before its start. -/
  | emptyRange (first last : Char)
  /-- A group has no end. -/
  | openGroup
  /-- A brace ends no group. -/
  | noGroup
  /-- Nothing follows on a backslash. -/
  | bareBackslash
deriving DecidableEq, Repr

namespace WildcardFault

/-- The wording of a fault. -/
def message : WildcardFault → String
  | openClass => "unclosed character class; missing ']'"
  | emptyRange a b => "invalid range; '" ++ a.toString ++ "' > '" ++ b.toString ++ "'"
  | openGroup =>
    "unclosed alternate group; missing '\x7d' (maybe escape '\x7b' with '[\x7b]'?)"
  | noGroup =>
    "unopened alternate group; missing '\x7b' (maybe escape '\x7d' with '[\x7d]'?)"
  | bareBackslash => "dangling '\\'"

end WildcardFault

namespace Wildcard

/-! ## Classes -/

/-- Adds a character to the ranges of a class, last first; `inRange` says that it is the end of the
last range. -/
def addToClass (inRange : Bool) (ranges : List (Char × Char)) (c : Char) :
    Except WildcardFault (List (Char × Char)) :=
  match inRange, ranges with
  | true, (first, _) :: rs =>
    if c < first then .error (.emptyRange first c) else .ok ((first, c) :: rs)
  | _, rs => .ok ((c, c) :: rs)

/-- Reads a class up to the bracket at its end, the ranges so far given last first. A bracket or a
hyphen in front stands for itself, and so does a hyphen at the end. -/
def readClass (inRange : Bool) (ranges : List (Char × Char)) :
    List Char → Except WildcardFault (List (Char × Char) × List Char)
  | [] => .error .openClass
  | c :: cs =>
    if ranges.isEmpty then readClass false [(c, c)] cs
    else if c = ']' then
      .ok (((if inRange then ('-', '-') :: ranges else ranges).reverse), cs)
    else if c = '-' && !inRange then readClass true ranges cs
    else
      match addToClass inRange ranges c with
      | .ok rs => readClass false rs cs
      | .error e => .error e

theorem readClass_length {inRange : Bool} {ranges rs : List (Char × Char)} {cs rest : List Char}
    (h : readClass inRange ranges cs = .ok (rs, rest)) : rest.length < cs.length := by
  fun_induction readClass inRange ranges cs with
  | case1 => simp at h
  | case2 _ _ _ _ _ ih => exact Nat.lt_succ_of_lt (ih h)
  | case3 => simp_all
  | case4 _ _ _ _ _ _ _ ih => exact Nat.lt_succ_of_lt (ih h)
  | case5 _ _ _ _ _ _ _ _ _ ih => exact Nat.lt_succ_of_lt (ih h)
  | case6 => simp at h

/-- Reads a class from behind the bracket at its start. -/
def readClassFromStart (cs : List Char) : Except WildcardFault (Token × List Char) :=
  match cs with
  | '!' :: cs | '^' :: cs =>
    match readClass false [] cs with
    | .ok (rs, rest) => .ok (.oneOf true rs, rest)
    | .error e => .error e
  | cs =>
    match readClass false [] cs with
    | .ok (rs, rest) => .ok (.oneOf false rs, rest)
    | .error e => .error e

theorem readClassFromStart_length {cs rest : List Char} {t : Token}
    (h : readClassFromStart cs = .ok (t, rest)) : rest.length < cs.length := by
  unfold readClassFromStart at h
  split at h
  · split at h
    · rename_i hr
      have := readClass_length hr
      simp_all
      omega
    · simp at h
  · split at h
    · rename_i hr
      have := readClass_length hr
      simp_all
      omega
    · simp at h
  · split at h
    · rename_i hr
      have := readClass_length hr
      simp_all
    · simp at h

/-! ## Groups -/

/-- A group that is being read. -/
structure OpenGroup where
  /-- The tokens before the group, last first. -/
  before : List Token
  /-- Its branches that are complete, last first. -/
  branches : List (List Token)

/-- What is being read : the groups that are open, innermost first, the tokens of the branch under
way, last first, and the character before. -/
structure Progress where
  groups : List OpenGroup
  tokens : List Token
  previous : Option Char

namespace Progress

/-- Adds a token. -/
def add (p : Progress) (t : Token) (previous : Char) : Progress :=
  { p with tokens := t :: p.tokens, previous := some previous }

/-- Starts a group. -/
def openGroup (p : Progress) : Progress :=
  ⟨⟨p.tokens, []⟩ :: p.groups, [], some '\x7b'⟩

/-- Ends a branch of the innermost group; without a group, a comma stands for itself. -/
def endBranch (p : Progress) : Progress :=
  match p.groups with
  | [] => p.add (.literal ',') ','
  | g :: gs => ⟨{ g with branches := p.tokens.reverse :: g.branches } :: gs, [], some ','⟩

/-- Ends the innermost group. -/
def closeGroup (p : Progress) : Except WildcardFault Progress :=
  match p.groups with
  | [] => .error .noGroup
  | g :: gs =>
    .ok ⟨gs, .group ((p.tokens.reverse :: g.branches).reverse) :: g.before, some '\x7d'⟩

/-- Two stars that do not stand for directories. -/
def addTwoRuns (p : Progress) : Progress :=
  { p with tokens := .run :: .run :: p.tokens, previous := some '*' }

/-- A doubled star further on stands for directories only behind a slash or, in a group, at the
start of a branch. -/
def followsSeparator (p : Progress) : Bool :=
  p.previous == some '/' ||
    !p.groups.isEmpty && (p.previous == some ',' || p.previous == some '\x7b')

/-- What is left of the pattern or of a branch of a group is nothing. -/
def atBranchEnd (p : Progress) (rest : List Char) : Bool :=
  match rest with
  | [] => true
  | c :: _ => !p.groups.isEmpty && (c == ',' || c == '\x7d')

/-- Puts directories in the place of the slash before them; directories that are there already
remain. -/
def replaceLast (p : Progress) (t : Token) : Progress :=
  match p.tokens with
  | .leading :: _ => p
  | .trailing :: _ => p
  | _ :: ts => { p with tokens := t :: ts }
  | [] => { p with tokens := [t] }

/-- Adds what a doubled star stands for before the `rest` of the pattern, and says whether a slash
of the rest belongs to it. At the start of a branch it stands for directories if a slash follows or
the pattern ends. -/
def addTwoStars (p : Progress) (rest : List Char) : Progress × Bool :=
  if p.tokens.isEmpty then
    if rest.isEmpty || rest.head? == some '/' then (p.add .leading (rest.headD '*'), true)
    else (p.addTwoRuns, false)
  else if !p.followsSeparator then (p.addTwoRuns, false)
  else if p.atBranchEnd rest then
    ({ p.replaceLast .trailing with previous := some '*' }, false)
  else if rest.head? == some '/' then
    ({ p.replaceLast .inner with previous := some '/' }, true)
  else (p.addTwoRuns, false)

end Progress

/-- Reads the tokens of a wildcard. -/
def readTokens (p : Progress) (cs : List Char) : Except WildcardFault (List Token) :=
  match cs with
  | [] => if p.groups.isEmpty then .ok p.tokens.reverse else .error .openGroup
  | '*' :: '*' :: rest =>
    match p.addTwoStars rest with
    | (p, true) => readTokens p rest.tail
    | (p, false) => readTokens p rest
  | '*' :: rest => readTokens (p.add .run '*') rest
  | '?' :: rest => readTokens (p.add .one '?') rest
  | '[' :: rest =>
    match h : readClassFromStart rest with
    | .ok (t, rest) =>
      have := readClassFromStart_length h
      readTokens (p.add t ']') rest
    | .error e => .error e
  | '\x7b' :: rest => readTokens p.openGroup rest
  | '\x7d' :: rest =>
    match p.closeGroup with
    | .ok p => readTokens p rest
    | .error e => .error e
  | ',' :: rest => readTokens p.endBranch rest
  | '\\' :: [] => .error .bareBackslash
  | '\\' :: c :: rest => readTokens (p.add (.literal c) c) rest
  | c :: rest => readTokens (p.add (.literal c) c) rest
termination_by cs.length
decreasing_by
  all_goals
    simp only [List.length_cons, List.length_tail]
    omega

/-- Reads a wildcard. -/
def parse (source : String) : Except WildcardFault Wildcard :=
  (readTokens ⟨[], [], none⟩ source.toList).map fun tokens => ⟨source, tokens⟩

end Wildcard

end ArchiveLabels
