import PatternGrammar.Regex.Code
import PatternGrammar.Regex.Subject
import PatternGrammar.Unicode.ScriptRun

/-!
# The matching machine

A machine tries to match code at one place of a subject. A thread walks forward through the code. Where there
is a choice it enters the matcher anew for one way to go on, and what else it could have done waits on a
stack. A thread that fails hands its verdict back to the choice on top. Every entry counts, and so does the
number of entries that a thread has behind it; both have limits.
-/

namespace PatternGrammar.Regex

/-- The texts of the numbered groups, as offsets. -/
abbrev Captures := Array (Option (Nat × Nat))

/-! ## States -/

/-- What closes at the end of a group. -/
inductive ClosingKind where
  /-- Nothing has been kept of where the group began. -/
  | plain
  | framed
  /-- A look around that serves as a condition. -/
  | condition
  /-- A call of the group with this number; the captures and the call under way come back with its end. -/
  | call (number : Nat) (captures : Captures) (calling : Option Nat)

/-- A group that a thread stands in. -/
structure Closing where
  kind : ClosingKind
  shape : Shape
  body : Code
  next : Code
  /-- Where the group began. -/
  origin : Nat
  /-- The number of choices below that of the group. -/
  height : Nat

/-- A walk through code. -/
structure Thread where
  code : Code
  place : Nat
  /-- Where the match is said to begin. -/
  start : Nat
  /-- The number of entries behind it. -/
  depth : Nat := 0
  captures : Captures
  closings : List Closing := []
  /-- The group that is being called. -/
  calling : Option Nat := none

/-- How a thread has failed: because of what it found, or because of a verb, which may stand in the call of
a group. -/
inductive Verdict where
  | failed
  /-- The look around is over, with these captures. -/
  | accepted (captures : Captures)
  | committed (calling : Option Nat)
  | pruned (calling : Option Nat)
  | skipped (place : Nat) (calling : Option Nat)
  | skippedTo (name : Text) (calling : Option Nat)
  | left (place : Nat) (calling : Option Nat)

/-- The alternatives of a group. -/
structure Branching where
  /-- The groups around each alternative. -/
  inside : List Closing
  shape : Shape
  /-- The number of instructions to leave an alternative up to the end of the one under way. -/
  upTo : Nat
  several : Bool
  others : Option Code

/-- What to do with the verdict on the way that was tried. -/
inductive Resumption where
  | goOn
  | enter (shape : Shape) (body next : Code)
  /-- There is nothing else to do. -/
  | spent
  /-- The last alternative needs an entry of its own if all of them do. -/
  | branches (b : Branching) (all : Bool)
  | ahead (b : Branching) (next : Code)
  | avoid (b : Branching) (next : Code)
  /-- A look around decides in a conditional group. -/
  | decide (b : Branching) (negated : Bool) (shape : Shape) (yes : Code) (no : Option Code)
      (body next : Code)
  | call (number : Nat) (b : Branching)
  | keep (b : Branching) (body next : Code) (matched : Bool)
  | mark (name : Text)
  | commit
  | prune
  | skip
  | skipTo (name : Text)
  | leave (place : Nat)
  /-- A greedy repetition that begins at `low`. -/
  | shorter (s : Single) (low : Nat)
  | shorterSet (s : Single) (low : Nat)
  | longer (s : Single) (left : Option Nat)
  | shorterText (length low : Nat)
  | fewerTexts (span : Nat × Nat) (ignoreCase : Bool) (count low : Nat)
  | longerText (span : Nat × Nat) (ignoreCase : Bool) (left : Option Nat)

/-- Threads that wait for a verdict, the last one on top. -/
inductive Choices where
  | none
  | more (thread : Thread) (resumption : Resumption) (below : Choices)

/-- What is left below so many choices. -/
def Choices.drop : (count : Nat) → Choices → Choices
  | 0, cs => cs
  | _ + 1, .none => .none
  | count + 1, .more _ _ below => below.drop count

/-- Why a search is not carried through. -/
inductive SearchFault where
  | entryLimit
  | depthLimit
  | memoryLimit
  | nestedCall
  | strayAccept
  deriving DecidableEq, Repr

/-- The end of an attempt. -/
inductive Attempt where
  | matched
  | refused (v : Verdict)
  | stopped (fault : SearchFault)

structure Machine where
  choices : Choices := .none
  /-- The number of choices. -/
  height : Nat := 0
  entries : Nat := 1
  /-- The number of skips to a mark that have been met. -/
  skips : Nat := 0

/-- What a machine does next. -/
inductive Step where
  | forward (m : Machine) (t : Thread)
  | enter (m : Machine) (t : Thread) (shape : Shape) (body next : Code)
  | backward (m : Machine) (v : Verdict)
  | finished (m : Machine) (a : Attempt)

/-- The bytes that an entry fills. -/
def frameSize (groupCount : Nat) : Nat := 128 + 16 * groupCount

/-- What an attempt depends on. -/
structure Engine where
  program : Program
  subject : Subject
  settings : Settings
  /-- Alternatives may be given up, so that each needs an entry of its own. -/
  hasLeave : Bool
  /-- So many skips to a mark are passed over. -/
  ignoredSkips : Nat := 0
  /-- The number of entries for which there is no room any more. -/
  crowd : Nat :=
    let size := frameSize program.groupCount
    (settings.limits.memory * 1024 + size - 1) / size

/-! ## Entries -/

/-- Why a thread with so many entries behind it cannot enter the matcher anew. -/
def Engine.refusal? (e : Engine) (entries depth : Nat) : Option SearchFault :=
  if e.crowd ≤ depth + 2 then some .memoryLimit
  else if e.settings.limits.entries ≤ entries then some .entryLimit
  else if e.settings.limits.depth ≤ depth + 1 then some .depthLimit
  else none

/-- Enters the matcher; the thread waits for the verdict, and its successor goes on. -/
@[inline] def Engine.call (e : Engine) (m : Machine) (t : Thread) (r : Resumption)
    (go : Machine → Step) : Step :=
  match e.refusal? m.entries t.depth with
  | some fault => .finished m (.stopped fault)
  | none =>
      go { m with choices := .more t r m.choices, height := m.height + 1, entries := m.entries + 1 }

/-- The thread waits, and what follows is tried first. -/
def Engine.tryNext (e : Engine) (m : Machine) (t : Thread) (r : Resumption) : Step :=
  e.call m t r fun m => .forward m { t with depth := t.depth + 1 }

/-- The thread waits, and these alternatives of a group are tried. -/
def Engine.tryBranch (e : Engine) (m : Machine) (t : Thread) (r : Resumption) (inside : List Closing)
    (branch : Code) (calling : Option Nat) : Step :=
  e.call m t r fun m =>
    .forward m { t with code := branch, closings := inside, depth := t.depth + 1, calling }

/-- The machine with so many choices left. -/
def Machine.cutTo (m : Machine) (height : Nat) : Machine :=
  { m with choices := m.choices.drop (m.height - height), height := min height m.height }

/-! ## Groups -/

/-- The groups around the items of a group that is entered now. -/
@[inline] def Thread.within (t : Thread) (m : Machine) (kind : ClosingKind) (shape : Shape)
    (body next : Code) : List Closing :=
  { kind, shape, body, next, origin := t.place, height := m.height } :: t.closings

/-- Tries the first alternative of a group. -/
@[inline] def Engine.tryFirst (e : Engine) (m : Machine) (t : Thread) (shape : Shape)
    (inside : List Closing) (body : Code) (calling : Option Nat)
    (resumption : Branching → Resumption) : Step :=
  match body with
  | .either upTo branch others =>
      e.tryBranch m t (resumption { inside, shape, upTo, several := true, others := some others })
        inside branch calling
  | body =>
      e.tryBranch m t
        (resumption { inside, shape, upTo := shape.upTo, several := false, others := none })
        inside body calling

/-- Tries the next alternative of a group; `b` holds those that are left. -/
@[inline] def Engine.tryOthers (e : Engine) (m : Machine) (t : Thread) (b : Branching) (others : Code)
    (calling : Option Nat) (resumption : Branching → Resumption) : Step :=
  match others with
  | .either upTo branch others =>
      e.tryBranch m t (resumption { b with upTo, others := some others }) b.inside branch calling
  | branch =>
      e.tryBranch m t (resumption { b with upTo := b.shape.upTo, others := none }) b.inside branch calling

/-- Goes on with an alternative of a conditional group. -/
def Engine.choose (e : Engine) (m : Machine) (t : Thread) (shape : Shape) (branch body next : Code) :
    Step :=
  let kind := if shape.guarded then ClosingKind.framed else .plain
  let closings := t.within m kind shape body next
  if shape.guarded then
    e.call m t .spent fun m => .forward m { t with code := branch, closings, depth := t.depth + 1 }
  else .forward m { t with code := branch, closings }

/-- The first alternative of a group, and the others. -/
def Code.split : Code → Code × Option Code
  | .either _ branch others => (branch, some others)
  | code => (code, none)

/-- Enters a conditional group. -/
def Engine.enterConditional (e : Engine) (m : Machine) (t : Thread) (shape : Shape) (test : Test)
    (body next : Code) : Step :=
  let (yes, no) := body.split
  let go (holds : Bool) : Step :=
    e.choose m t shape (if holds then yes else no.getD .stop) body next
  match test with
  | .captured numbers => go (numbers.any fun n => (t.captures.getD n none).isSome)
  | .inCall numbers =>
      match t.calling, numbers with
      | none, _ => go false
      | some _, none => go true
      | some n, some numbers => go (numbers.contains n)
  | .constant holds => go holds
  | .look =>
      match yes with
      | .group look condition yes =>
          let negated := match look.role with
            | .look l => l.negated
            | _ => false
          let inside := t.within m .condition look condition yes
          e.tryFirst m t look inside condition t.calling fun b =>
            .decide b negated shape yes no body next
      | _ => e.choose m t shape (no.getD .stop) body next

/-- Enters a group. -/
def Engine.enter (e : Engine) (m : Machine) (t : Thread) (shape : Shape) (body next : Code) : Step :=
  match shape.role with
  | .conditional test => e.enterConditional m t shape test body next
  | .look look =>
      if look.negated then
        e.tryFirst m t shape (t.within m .framed shape body next) body t.calling fun b => .avoid b next
      else e.tryFirst m t shape (t.within m .framed shape body next) body t.calling fun b => .ahead b next
  | .plain =>
      if shape.ending = .keep then
        e.tryFirst m t shape (t.within m .framed shape body next) body t.calling fun b => .keep b body next false
      else if shape.guarded then
        e.tryFirst m t shape (t.within m .framed shape body next) body t.calling fun b => .branches b true
      else if e.hasLeave then
        e.tryFirst m t shape (t.within m .plain shape body next) body t.calling fun b => .branches b true
      else
        match body with
        | .either _ _ _ =>
            e.tryFirst m t shape (t.within m .plain shape body next) body t.calling fun b => .branches b false
        | body => .forward m { t with code := body, closings := t.within m .plain shape body next }
  | .capture _ _ =>
      if shape.ending = .keep then
        e.tryFirst m t shape (t.within m .framed shape body next) body t.calling fun b => .keep b body next false
      else e.tryFirst m t shape (t.within m .framed shape body next) body t.calling fun b => .branches b true
  | .atomic | .scriptRun =>
      e.tryFirst m t shape (t.within m .framed shape body next) body t.calling fun b => .branches b true

/-- Comes to a group. -/
def Engine.reachGroup (e : Engine) (m : Machine) (t : Thread) (shape : Shape) (body next : Code) :
    Step :=
  match shape.entry with
  | .once => e.enter m t shape body next
  | .never => .forward m { t with code := next }
  | .maybe =>
      if shape.ending = .keep then e.enter m t shape body next
      else
        e.call m { t with code := next } .goOn fun m =>
          .enter m { t with depth := t.depth + 1 } shape body next
  | .maybeNot =>
      e.tryNext m { t with code := next } (.enter shape body next)

/-- The innermost call of the group with this number begins at this place. -/
def callsAgain (number place : Nat) : List Closing → Bool
  | [] => false
  | c :: outer =>
      match c.kind with
      | .call n _ _ => if n = number then c.origin = place else callsAgain number place outer
      | _ => callsAgain number place outer

/-- Calls a group; the thread stands behind the call in the code. A call that has not got ahead since the last one would never end. -/
def Engine.callGroup (e : Engine) (m : Machine) (t : Thread) (number : Nat) : Step :=
  if t.calling.isSome && callsAgain number t.place t.closings then .finished m (.stopped .nestedCall)
  else
    let (shape, body) :=
      match e.program.definition? number with
      | some d => (d.shape, d.body)
      | none => ({ role := .plain, upTo := e.program.leaves }, e.program.code)
    let inside := t.within m (.call number t.captures t.calling) shape body t.code
    e.tryFirst m t shape inside body (some number) fun b => .call number b

/-! ## Ends -/

/-- There is nothing else to do with the alternatives. -/
def Branching.spent (b : Branching) : Branching := { b with upTo := b.shape.upTo, others := none }

/-- There is nothing else to do with the group. -/
def Resumption.exhausted : Resumption → Resumption
  | .branches b all => .branches b.spent all
  | .ahead b next => .ahead b.spent next
  | r => r

/-- What has been tried within a group is settled. -/
def Machine.settle (m : Machine) (c : Closing) : Machine :=
  let m := m.cutTo (c.height + 1)
  match m.choices with
  | .more t r below => { m with choices := .more t r.exhausted below }
  | .none => m

/-- Gives up the choices of a group, and hands over its thread and what it waits for. -/
@[inline] def Machine.unwind (m : Machine) (c : Closing) (go : Machine → Thread → Resumption → Step) :
    Step :=
  let m := m.cutTo (c.height + 1)
  match m.choices with
  | .more t r below => go { m with choices := below, height := c.height } t r
  | .none => .backward m .failed

/-- A match has been found, unless it is empty and must not be. -/
def Engine.conclude (e : Engine) (m : Machine) (t : Thread) : Step :=
  let unwanted :=
    t.place = t.start &&
      (e.settings.notEmpty || (e.settings.notEmptyAtStart && t.start = 0))
  if unwanted then .backward m .failed else .finished m .matched

/-- Ends a call of the whole expression, or one that accepts: nothing in it is tried again. -/
def Machine.leaveCall (m : Machine) (t : Thread) : List Closing → Step
  | [] => .backward m .failed
  | c :: outer =>
      match c.kind with
      | .call _ _ _ =>
          m.unwind c fun m caller _ =>
            .forward m { caller with code := c.next, place := t.place, start := t.start }
      | _ => m.leaveCall t outer

/-- The end of a group, with what has to be done there taken care of. -/
def Engine.endGroup (e : Engine) (m : Machine) (t : Thread) (c : Closing) (outer : List Closing) :
    Step :=
  match c.shape.ending with
  | .once => .forward m { t with code := c.next, closings := outer }
  | .again =>
      let after := { t with code := c.next, closings := outer }
      if c.kind matches .plain || c.origin ≠ t.place then
        e.call m after .goOn fun m =>
          .enter m { after with depth := t.depth + 1 } c.shape c.body c.next
      else .forward m after
  | .onward =>
      let after := { t with code := c.next, closings := outer }
      if c.kind matches .plain || c.origin ≠ t.place then
        e.tryNext m after (.enter c.shape c.body c.next)
      else .forward m after
  | .keep =>
      m.unwind c fun m first resumption =>
        match resumption with
        | .keep b body next _ =>
            let t := { first with place := t.place, start := t.start, captures := t.captures }
            if t.place = first.place then .forward m { t with code := next }
            else
              let inside :=
                match b.inside with
                | frame :: around => { frame with origin := t.place } :: around
                | [] => []
              e.tryFirst m t b.shape inside body t.calling fun b => .keep b body next true
        | _ => .backward m .failed

/-- The end of a group that has kept where it began. -/
def Engine.closeGroup (e : Engine) (m : Machine) (t : Thread) (c : Closing) (outer : List Closing) :
    Step :=
  match c.shape.role with
  | .plain | .conditional _ => e.endGroup m t c outer
  | .capture n _ =>
      let captures := t.captures.setIfInBounds n (some (c.origin, t.place))
      e.endGroup m { t with captures } c outer
  | .atomic => e.endGroup (m.settle c) t c outer
  | .scriptRun =>
      if Unicode.isScriptRun (e.subject.charsBetween c.origin t.place) then e.endGroup m t c outer
      else .backward m .failed
  | .look look =>
      if look.negated then m.unwind c fun m _ _ => .backward m .failed
      else
        let m := if look.atomic then m.settle c else m
        e.endGroup m { t with place := c.origin } c outer

/-- The code that a thread walks through has ended. -/
def Engine.close (e : Engine) (m : Machine) (t : Thread) : Step :=
  match t.closings with
  | [] => e.conclude m t
  | c :: outer =>
      match c.kind with
      | .plain => e.endGroup m t c outer
      | .framed => e.closeGroup m t c outer
      | .condition =>
          m.unwind c fun m first resumption =>
            match resumption with
            | .decide _ negated shape yes no body next =>
                let branch := if negated then no.getD .stop else yes
                e.choose m { first with captures := t.captures } shape branch body next
            | _ => .backward m .failed
      | .call number captures calling =>
          if number = 0 then m.leaveCall t t.closings
          else .forward m { t with code := c.next, closings := outer, captures, calling }

/-- Closes an open group early. -/
def closeEarly (t : Thread) (captures : Captures) (n : Nat) : Captures :=
  let frame? := t.closings.find? fun c =>
    match c.kind, c.shape.role with
    | .framed, .capture m _ => m = n
    | _, _ => false
  match frame? with
  | some c => captures.setIfInBounds n (some (c.origin, t.place))
  | none => captures

/-- Accepts what has been matched so far. -/
def Engine.accept (e : Engine) (m : Machine) (t : Thread) (inLook : Bool) (closing : List Nat) :
    Step :=
  let captures := if t.calling.isSome then t.captures else closing.foldl (closeEarly t) t.captures
  if inLook then .backward m (.accepted captures)
  else if t.calling.isSome then m.leaveCall t t.closings
  else e.conclude m { t with captures }

/-! ## Repetitions -/

/-- How many repetitions there can be beyond the least number, if there is a limit. -/
def Times.beyond? (times : Times) : Option Nat := times.most.map (· - times.least)

/-- Tries what follows a greedy repetition, unless it has given back everything. -/
def Engine.tryShorter (e : Engine) (m : Machine) (t : Thread) (s : Single) (low : Nat) : Step :=
  if t.place ≤ low then .forward m t else e.tryNext m t (.shorter s low)

/-- How often an item can be repeated from a place on, beyond the least number. -/
def Subject.mostFrom (s : Subject) (times : Times) (i : Nat) : Nat :=
  match times.most with
  | some most => most - times.least
  | none => s.size + 1 - i

/-- Comes to a repetition of a single item; the thread stands behind it in the code. -/
def Engine.repeatSingle (e : Engine) (m : Machine) (t : Thread) (s : Single) (times : Times) : Step :=
  match e.subject.takeTimes? s times.least t.place with
  | none => .backward m .failed
  | some low =>
      match times.mode with
      | .reluctant => e.tryNext m { t with place := low } (.longer s times.beyond?)
      | .greedy | .possessive =>
          let t := { t with place := e.subject.takeMost s (e.subject.mostFrom times low) low }
          match s with
          | .set _ => e.tryNext m t (.shorterSet s low)
          | _ => e.tryShorter m t s low

/-- Takes the text of a group as often as possible, up to `count` times: how often it was, the place behind,
and whether all were of the same length. -/
def Subject.takeTexts (s : Subject) (ignoreCase : Bool) (span : Nat × Nat) :
    (count done : Nat) → (alike : Bool) → Nat → Nat × Nat × Bool
  | 0, done, alike, i => (done, i, alike)
  | count + 1, done, alike, i =>
      match s.repeatText? ignoreCase span.1 span.2 i with
      | none => (done, i, alike)
      | some j =>
          s.takeTexts ignoreCase span count (done + 1) (alike && j - i = span.2 - span.1) j

/-- Takes the text of a group so many times. -/
def Subject.takeTextTimes? (s : Subject) (ignoreCase : Bool) (span : Nat × Nat) :
    (count : Nat) → Nat → Option Nat
  | 0, i => some i
  | count + 1, i =>
      match s.repeatText? ignoreCase span.1 span.2 i with
      | none => none
      | some j => s.takeTextTimes? ignoreCase span count j

/-- Comes to a reference; the thread stands behind it in the code. -/
def Engine.refer (e : Engine) (m : Machine) (t : Thread) (numbers : List Nat) (ignoreCase : Bool)
    (times : Times) : Step :=
  match numbers.findSome? fun n => t.captures.getD n none with
  | none => if times.least = 0 then .forward m t else .backward m .failed
  | some span =>
      if span.1 = span.2 then .forward m t
      else
        match e.subject.takeTextTimes? ignoreCase span times.least t.place with
        | none => .backward m .failed
        | some low =>
            if !times.varies then .forward m { t with place := low }
            else if times.mode = .reluctant then
              e.tryNext m { t with place := low } (.longerText span ignoreCase times.beyond?)
            else
              let count := e.subject.mostFrom times low
              let (done, last, alike) := e.subject.takeTexts ignoreCase span count 0 true low
              let t := { t with place := last }
              if alike then e.tryNext m t (.shorterText (span.2 - span.1) low)
              else e.tryNext m t (.fewerTexts span ignoreCase done low)

/-! ## Forward -/

/-- Comes to an instruction that leaves a choice or changes the thread, which stands behind it in the
code. -/
def Engine.execute (e : Engine) (m : Machine) (t : Thread) : Instruction → Step
  | .one _ | .anchor _ | .stepBack _ | .fail => .backward m .failed
  | .many s times => e.repeatSingle m t s times
  | .keepOut => .forward m { t with start := t.place }
  | .refer numbers ignoreCase times => e.refer m t numbers ignoreCase times
  | .call n => e.callGroup m t n
  | .accept inLook closing => e.accept m t inLook closing
  | .mark name => e.tryNext m t (.mark name)
  | .commit _ => e.tryNext m t .commit
  | .prune _ => e.tryNext m t .prune
  | .skip => e.tryNext m t .skip
  | .skipTo name =>
      let m := { m with skips := m.skips + 1 }
      if m.skips ≤ e.ignoredSkips then .forward m t else e.tryNext m t (.skipTo name)
  | .leave place _ => e.tryNext m t (.leave place)

/-- A thread walks through code from a place on until there is a choice. -/
def Engine.walk (e : Engine) (m : Machine) (t : Thread) (place : Nat) : Code → Step
  | .stop => e.close m { t with place }
  | .step (.one s) next =>
      let behind := e.subject.take s place
      if behind = place then .backward m .failed else e.walk m t behind next
  | .step (.anchor a) next =>
      if e.subject.holdsAt a place then e.walk m t place next else .backward m .failed
  | .step (.many s times) next =>
      if times.varies && times.mode ≠ .possessive then
        e.repeatSingle m { t with place, code := next } s times
      else
        match e.subject.takeTimes? s times.least place with
        | none => .backward m .failed
        | some place =>
            if times.varies then
              e.walk m t (e.subject.takeMost s (e.subject.mostFrom times place) place) next
            else e.walk m t place next
  | .step (.stepBack width) next =>
      match e.subject.back? width place with
      | some place => e.walk m t place next
      | none => .backward m .failed
  | .step .fail _ => .backward m .failed
  | .step i next => e.execute m { t with place, code := next } i
  | .group shape body next => e.reachGroup m { t with place } shape body next
  | .either _ branch others =>
      e.call m { t with place, code := others } .goOn fun m =>
        .forward m { t with place, code := branch, depth := t.depth + 1 }

/-! ## Backward -/

/-- The verdict after an alternative that may have been given up by itself. -/
def Branching.judge (b : Branching) : Verdict → Verdict
  | .left place calling =>
      if b.several && place < b.upTo then .failed else .left place calling
  | v => v

/-- The call in which a verb has decided. -/
def Verdict.verbIn : Verdict → Option (Option Nat)
  | .failed | .accepted _ => none
  | .committed calling | .pruned calling | .skipped _ calling | .skippedTo _ calling
  | .left _ calling => some calling

/-- Hands a verdict to a repetition. -/
def Engine.resumeRepetition (e : Engine) (m : Machine) (t : Thread) : Resumption → Step
  | .shorter s low =>
      e.tryShorter m { t with place := e.subject.giveBack s low t.place } s low
  | .shorterSet s low =>
      if t.place ≤ low then .backward m .failed
      else e.tryNext m { t with place := e.subject.previous t.place } (.shorterSet s low)
  | .longer s left =>
      if left = some 0 then .backward m .failed
      else
        let behind := e.subject.take s t.place
        if behind = t.place then .backward m .failed
        else e.tryNext m { t with place := behind } (.longer s (left.map (· - 1)))
  | .shorterText length low =>
      if t.place < low + length then .backward m .failed
      else e.tryNext m { t with place := t.place - length } (.shorterText length low)
  | .fewerTexts span ignoreCase count low =>
      if t.place = low then .backward m .failed
      else
        match e.subject.takeTextTimes? ignoreCase span (count - 1) low with
        | none => .backward m .failed
        | some place =>
            e.tryNext m { t with place } (.fewerTexts span ignoreCase (count - 1) low)
  | .longerText span ignoreCase left =>
      if left = some 0 then .backward m .failed
      else
        match e.subject.repeatText? ignoreCase span.1 span.2 t.place with
        | none => .backward m .failed
        | some place =>
            e.tryNext m { t with place } (.longerText span ignoreCase (left.map (· - 1)))
  | _ => .backward m .failed

/-- Hands a verdict on a look around to what it stands for: it holds with some captures, or it does not. -/
def Engine.resumeLook (e : Engine) (m : Machine) (t : Thread) (v : Verdict) : Resumption → Step
  | .ahead b next =>
      match v with
      | .accepted captures => .forward m { t with code := next, captures }
      | .failed | .left _ _ =>
          match b.others with
          | some others => e.tryOthers m t b others t.calling fun b => .ahead b next
          | none => .backward m .failed
      | v => .backward m v
  | .avoid b next =>
      match v with
      | .accepted _ => .backward m .failed
      | .failed | .left _ _ =>
          match b.others with
          | some others => e.tryOthers m t b others t.calling fun b => .avoid b next
          | none => .forward m { t with code := next }
      | .committed _ | .pruned _ | .skipped _ _ => .forward m { t with code := next }
      | v => .backward m v
  | .decide b negated shape yes no body next =>
      let choose (t : Thread) (holds : Bool) : Step :=
        e.choose m t shape (if holds != negated then yes else no.getD .stop) body next
      match v with
      | .accepted captures => choose { t with captures } true
      | .failed | .left _ _ =>
          match b.others with
          | some others =>
              e.tryOthers m t b others t.calling fun b => .decide b negated shape yes no body next
          | none => choose t false
      | .committed _ | .pruned _ | .skipped _ _ => choose t false
      | v => .backward m v
  | _ => .backward m v

/-- Hands a verdict on an alternative to its group. -/
def Engine.resumeGroup (e : Engine) (m : Machine) (t : Thread) (v : Verdict) : Resumption → Step
  | .branches b all =>
      match b.judge v with
      | .failed =>
          match b.others with
          | none => .backward m .failed
          | some others =>
              if !all && !others.hasAlternatives then
                .forward m { t with code := others, closings := b.inside }
              else e.tryOthers m t b others t.calling fun b => .branches b all
      | v => .backward m v
  | .call number b =>
      let judged :=
        if v.verbIn = some (some number) then
          match b.judge v with
          | .failed => some Verdict.failed
          | _ => none
        else some v
      match judged with
      | none => .backward m .failed
      | some .failed =>
          match b.others with
          | none => .backward m .failed
          | some others => e.tryOthers m t b others (some number) fun b => .call number b
      | some v => .backward m v
  | .keep b body next matched =>
      match b.judge v with
      | .failed =>
          match b.others with
          | some others => e.tryOthers m t b others t.calling fun b => .keep b body next matched
          | none =>
              if matched || b.shape.entry = .maybe then .forward m { t with code := next }
              else .backward m .failed
      | v => .backward m v
  | _ => .backward m v

/-- Hands a verdict to the choice that waits for it. -/
def Engine.resume (e : Engine) (m : Machine) (t : Thread) (r : Resumption) (v : Verdict) : Step :=
  match r with
  | .branches _ _ | .call _ _ | .keep _ _ _ _ => e.resumeGroup m t v r
  | .ahead _ _ | .avoid _ _ | .decide _ _ _ _ _ _ _ => e.resumeLook m t v r
  | .mark name =>
      match v with
      | .skippedTo other calling =>
          .backward m (if other = name then .skipped t.place calling else v)
      | v => .backward m v
  | r =>
      match v with
      | .failed =>
          match r with
          | .goOn => .forward m t
          | .enter shape body next => e.enter m t shape body next
          | .commit => .backward m (.committed t.calling)
          | .prune => .backward m (.pruned t.calling)
          | .skip => .backward m (.skipped t.place t.calling)
          | .skipTo name => .backward m (.skippedTo name t.calling)
          | .leave place => .backward m (.left place t.calling)
          | r => e.resumeRepetition m t r
      | v => .backward m v

/-- A verdict goes back to the choice on top. -/
def Engine.stepBackward (e : Engine) (m : Machine) (v : Verdict) : Step :=
  match m.choices with
  | .none => .finished m (.refused v)
  | .more t r below => e.resume { m with choices := below, height := m.height - 1 } t r v

/-! ## Running -/

/-- Takes steps to the end, and gives the number of skips to a mark that have been met. -/
def Engine.run (e : Engine) : (fuel : Nat) → Step → Attempt × Nat
  | 0, _ => (.stopped .entryLimit, 0)
  | fuel + 1, step =>
      match step with
      | .forward m t => e.run fuel (e.walk m t t.place t.code)
      | .enter m t shape body next => e.run fuel (e.enter m t shape body next)
      | .backward m v => e.run fuel (e.stepBackward m v)
      | .finished m a => (a, m.skips)

/-- So many steps are enough: between two entries a machine passes each piece of code once at most. -/
def Engine.fuel (e : Engine) : Nat := 4 * (e.settings.limits.entries + 2) * (e.program.code.size + 2)

/-- Tries to match at a place, and gives the number of skips to a mark that have been met. The first entry
counts, and each alternative of the whole expression is one more. -/
def Engine.attempt (e : Engine) (place : Nat) : Attempt × Nat :=
  let limits := e.settings.limits
  if limits.memory * 1024 < frameSize e.program.groupCount then (.stopped .memoryLimit, 0)
  else if limits.entries = 0 then (.stopped .entryLimit, 0)
  else if limits.depth = 0 then (.stopped .depthLimit, 0)
  else
    let t : Thread :=
      { code := .stop, place, start := place
        captures := Array.replicate (e.program.groupCount + 1) none }
    let shape : Shape := { role := .plain, upTo := e.program.leaves }
    e.run e.fuel (e.tryFirst {} t shape [] e.program.code none fun b => .branches b true)

end PatternGrammar.Regex
