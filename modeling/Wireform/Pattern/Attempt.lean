import Wireform.Pattern

set_option autoImplicit false

namespace Wireform

structure Attempt where
  place : Nat
  before : List Char
  after : List Char
  groups : List (Nat × List Char)

namespace Attempt

def isSame (s t : Attempt) : Bool := s.place == t.place && s.groups == t.groups

def distinct (attempts : List Attempt) : List Attempt :=
  (attempts.foldl (fun kept t => if kept.any t.isSame then kept else t :: kept) []).reverse

def advance? (s : Attempt) : Option (Char × Attempt) :=
  match s.after with
  | [] => none
  | c :: after => some (c, { s with place := s.place + 1, before := c :: s.before, after })

def along? : List Char → Attempt → Option Attempt
  | [], s => some s
  | c :: rest, s =>
    match s.advance? with
    | some (d, t) => if c = d then along? rest t else none
    | none => none

def back? : Nat → Attempt → Option Attempt
  | 0, s => some s
  | n + 1, s =>
    match s.before with
    | [] => none
    | c :: before => back? n { s with place := s.place - 1, before, after := c :: s.after }

def insert (number : Nat) (text : List Char) : List (Nat × List Char) → List (Nat × List Char)
  | [] => [(number, text)]
  | (n, old) :: rest =>
    if n = number then (number, text) :: rest
    else if number < n then (number, text) :: (n, old) :: rest
    else (n, old) :: insert number text rest

def keep (s t : Attempt) (number : Nat) : Attempt :=
  { t with groups := insert number (t.before.take (t.place - s.place)).reverse t.groups }

structure Walk where
  seen : List (Nat × Option Nat × Attempt)
  ends : List Attempt

/-- Goes on to further copies. A copy that is not needed has to take a character. -/
def walk (step : Attempt → List Attempt) (greedy : Bool) :
    Nat → Nat → Option Nat → Attempt → Walk → Walk
  | 0, _, _, _, done => done
  | depth + 1, least, most, s, done =>
    if done.seen.any fun (l, m, t) => l == least && m == most && s.isSame t then done
    else
      let here (done : Walk) (now : Bool) : Walk :=
        if now && least == 0 then { done with ends := s :: done.ends } else done
      let done := here { done with seen := (least, most, s) :: done.seen } !greedy
      let done :=
        if most = some 0 then done
        else
          (step s).foldl (fun done t =>
            if t.place = s.place ∧ least = 0 then done
            else walk step greedy depth (least - 1) (most.map (· - 1)) t done) done
      here done greedy

end Attempt

namespace Pattern

open Attempt

def outcomes : Pattern → Attempt → List Attempt
  | .empty, s => [s]
  | .boundary kind, s => if kind.holds s.before.head? s.after.head? then [s] else []
  | .one set, s =>
    match s.advance? with
    | some (c, t) => if set.contains c then [t] else []
    | none => []
  | .seq p q, s => distinct ((p.outcomes s).flatMap q.outcomes)
  | .alt p q, s => distinct (p.outcomes s ++ q.outcomes s)
  | .times p least most greedy, s =>
    let depth := least + s.after.length + 1
    distinct (walk p.outcomes greedy depth least most s ⟨[], []⟩).ends.reverse
  | .group number p, s => (p.outcomes s).map fun t => s.keep t number
  | .again number, s =>
    match s.groups.find? (·.1 == number) with
    | some (_, text) => (along? text s).toList
    | none => []
  | .look behind negated p, s =>
    let from? : Option Attempt :=
      match behind with
      | none => some s
      | some size => back? size s
    let ways := (from?.map p.outcomes).getD []
    if negated then if ways.isEmpty then [s] else []
    else distinct (ways.map fun t => { s with groups := t.groups })
  | .atomic p, s => (p.outcomes s).take 1

def found (p : Pattern) (before : List Char) : List Char → Bool
  | [] => !(p.outcomes ⟨before.length, before, [], []⟩).isEmpty
  | c :: rest =>
    !(p.outcomes ⟨before.length, before, c :: rest, []⟩).isEmpty || p.found (c :: before) rest

def occursIn (p : Pattern) (text : String) : Bool :=
  match p.regular? with
  | some r => r.occursIn text
  | none => p.found [] text.toList

end Pattern

end Wireform
