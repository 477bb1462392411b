import FeaturesOS.CString

/-!
# Parsing a command line

The functions of `readline.c`, `utils.c`, `createcmd.c` and `parsing.c`.  The
line stands in one buffer, which `split_line` and `parse_back` cut by storing
NULs; a pointer into it is a position.  The arrays of `struct execcmd` are lists,
and `Execcmd.Fits` says whether the real ones have room.
-/

namespace FeaturesOS.Shell

open CString

def buflen : Nat := 1024
def maxargs : Nat := 20

def space : UInt8 := 32
def endLine : UInt8 := 10

/-- `'|'`. -/
def pipeChar : UInt8 := 124

/-- `'&'`. -/
def backChar : UInt8 := 38

/-- `'<'`. -/
def less : UInt8 := 60

/-- `'>'`. -/
def greater : UInt8 := 62

/-- `'='`. -/
def equals : UInt8 := 61

/-- `'-'`. -/
def dash : UInt8 := 45

/-- `'$'`. -/
def dollar : UInt8 := 36

/-- `EXEC` and `REDIR`. -/
inductive ExecType where
  | exec
  | redir
deriving DecidableEq

/-- `struct execcmd` without the `pid`; its strings have no NUL. -/
structure Execcmd where
  type : ExecType
  scmd : List UInt8
  argv : List (List UInt8)
  eargv : List (List UInt8)
  outFile : List UInt8
  inFile : List UInt8
  errFile : List UInt8
deriving DecidableEq

/-- `argv`, with its NULL, and `eargv` have room. -/
def Execcmd.Fits (c : Execcmd) : Prop :=
  c.argv.length < maxargs ∧ c.eargv.length ≤ maxargs

/-- What a `struct cmd *` points to; `null` is NULL. -/
inductive Cmd where
  | null
  | exec (c : Execcmd)
  | back (scmd : List UInt8) (c : Execcmd)
  | pipe (leftcmd rightcmd : Cmd)
deriving DecidableEq

/-- What the parser takes from its surroundings: the global `status` and the
environment. -/
structure Globals where
  status : Int32
  getenv : List UInt8 → Option (List UInt8)

/-- `read_line` on the characters that follow on the standard input; `none` is
NULL. -/
def readLine (input : List UInt8) : Option (List UInt8) :=
  if endLine ∈ input then
    some (overwrite (zeros buflen) 0
      (input.takeWhile (· != endLine) ++ [0]))
  else
    none

/-- `split_line` at position `p`: the buffer and the position of the rest. -/
def splitLine (buf : List UInt8) (p : Nat) (splitter : UInt8) :
    List UInt8 × Nat :=
  let i := p + ((buf.drop p).takeWhile fun byte =>
    byte != splitter && byte != 0).length
  let cut := buf.set i 0
  (cut, i + 1 + ((cut.drop (i + 1)).takeWhile (· == space)).length)

/-- `block_contains` on a C string. -/
def blockContains (block : List UInt8) (c : UInt8) : Int :=
  match block.findIdx? (· == c) with
  | some i => i
  | none => -1

/-- `exec_cmd_create`. -/
def execCmdCreate (bufCmd : List UInt8) : Execcmd :=
  { type := .exec
    scmd := bufCmd
    argv := []
    eargv := []
    outFile := []
    inFile := []
    errFile := [] }

/-- `back_cmd_create`. -/
def backCmdCreate (c : Execcmd) : Cmd := .back c.scmd c

/-- `pipe_cmd_create`. -/
def pipeCmdCreate (left right : Cmd) : Cmd :=
  if right = .null then left else .pipe left right

/-- `get_token`: the token in front of `rest`. -/
def getToken (rest : List UInt8) : List UInt8 := rest.takeWhile (· != space)

/-- `parse_redir_flow`; `none` is `false`. -/
def parseRedirFlow (c : Execcmd) (arg : List UInt8) : Option Execcmd :=
  let outIdx := blockContains arg greater
  if outIdx ≥ 0 then
    if outIdx = 0 then
      some { c with outFile := arg.drop 1, type := .redir }
    else if outIdx = 1 then
      if arg.drop 2 = [backChar, 49] then
        some { c with errFile := c.outFile, type := .redir }
      else
        some { c with errFile := arg.drop 2, type := .redir }
    else
      some { c with type := .redir }
  else if blockContains arg less ≥ 0 then
    some { c with inFile := arg.drop 1, type := .redir }
  else
    none

/-- `parse_environ_var`; `none` is `false`. -/
def parseEnvironVar (c : Execcmd) (arg : List UInt8) : Option Execcmd :=
  if blockContains arg equals > 0 ∧ blockContains arg dash < 0 then
    some { c with eargv := c.eargv ++ [arg] }
  else
    none

/-- The text of an `int` that `sprintf` writes. -/
def decimal (value : Int) : List UInt8 :=
  (toString value).toList.map fun digit => UInt8.ofNat digit.toNat

/-- `expand_environ_var`. -/
def expandEnvironVar (globals : Globals) (arg : List UInt8) : List UInt8 :=
  if arg.head? ≠ some dollar then arg
  else if arg = [dollar, 63] then decimal globals.status.toInt
  else (globals.getenv (arg.drop 1)).getD []

/-- One round of the loop of `parse_exec`. -/
def parseToken (globals : Globals) (c : Execcmd) (tok : List UInt8) : Execcmd :=
  match parseRedirFlow c tok with
  | some redirected => redirected
  | none =>
      match parseEnvironVar c tok with
      | some assigned => assigned
      | none =>
          let arg := expandEnvironVar globals tok
          if arg.length > 0 then { c with argv := c.argv ++ [arg] } else c

/-- The loop of `parse_exec` over the text that is left, for at most `fuel`
tokens. -/
def parseExecFrom (globals : Globals) :
    Nat → Execcmd → List UInt8 → Execcmd
  | 0, c, _ => c
  | fuel + 1, c, rest =>
      if rest = [] then
        c
      else
        let tok := getToken rest
        parseExecFrom globals fuel (parseToken globals c tok)
          (rest.drop (tok.length + 1))

/-- `parse_exec`: every round consumes at least one byte.  When the lists do not
fit, the real stores reach what stands behind the arrays: `argv[20]` is `eargv[0]`,
and the file names follow. -/
def parseExec (globals : Globals) (bufCmd : List UInt8) : Execcmd :=
  parseExecFrom globals bufCmd.length (execCmdCreate bufCmd) bufCmd

/-- The byte that `buf[p - 1]` reads; `front` stands in front of the buffer. -/
def byteBefore (front : UInt8) (buf : List UInt8) (p : Nat) : UInt8 :=
  if p = 0 then front else buf.getD (p - 1) 0

/-- `parse_back` at position `p`. -/
def parseBack (globals : Globals) (buf : List UInt8) (p : Nat) :
    List UInt8 × Cmd :=
  let i := p + ((buf.drop p).takeWhile (· != backChar)).length
  let cut := buf.set i 0
  (cut, backCmdCreate (parseExec globals (text (cut.drop p))))

/-- `parse_cmd` at position `p`. -/
def parseCmd (globals : Globals) (front : UInt8) (buf : List UInt8)
    (p : Nat) : List UInt8 × Cmd :=
  let bufCmd := text (buf.drop p)
  if bufCmd.length = 0 then
    (buf, .null)
  else
    let idx := blockContains bufCmd backChar
    if idx ≥ 0 ∧ byteBefore front buf (p + idx.toNat) ≠ greater then
      parseBack globals buf p
    else
      (buf, .exec (parseExec globals bufCmd))

/-- `parse_line` at position `p`.  Every call starts behind the previous one, so
`fuel` calls are enough for a buffer of `fuel` bytes. -/
def parseLineFrom (globals : Globals) (front : UInt8) :
    Nat → List UInt8 → Nat → List UInt8 × Cmd
  | 0, buf, _ => (buf, .null)
  | fuel + 1, buf, p =>
      let (cut, right) := splitLine buf p pipeChar
      let (buf, l) := parseCmd globals front cut p
      let (buf, r) :=
        if blockContains (text (buf.drop right)) pipeChar > 0 then
          parseLineFrom globals front fuel buf right
        else
          parseCmd globals front buf right
      (buf, pipeCmdCreate l r)

/-- `parse_line`. -/
def parseLine (globals : Globals) (front : UInt8) (buf : List UInt8) : Cmd :=
  (parseLineFrom globals front buf.length buf 0).2

end FeaturesOS.Shell
