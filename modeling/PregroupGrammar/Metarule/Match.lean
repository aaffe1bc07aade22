import PregroupGrammar.Metarule.Basic
import PregroupGrammar.Metarule.Search

/-!
# Matching a metarule

A type is a case of a pattern when the concrete atoms of the pattern can be laid, in order, on atoms
of the type that agree with them, so that every run left between them lies where the pattern has a
generic atom. A concrete atom laid on the first atom of the type has to be the first of the pattern,
and one laid on the last atom the last.

If that can be done in one way, the match binds every generic to its run; if in several, the match
is ambiguous.
-/

namespace PregroupGrammar

/-- A type that is a case of a metarule's pattern in several ways. -/
structure AmbiguousMatch where
  tag : Int64
  pattern : WordType
  candidate : WordType
deriving DecidableEq, Repr

/-- The error in words. -/
def AmbiguousMatch.message (e : AmbiguousMatch) : String :=
  "Ambiguous match of '" ++ e.candidate.text ++ "' against metarule " ++
    Numeral.intText e.tag.toInt ++ " pattern '" ++ e.pattern.text ++ "'"

/-- A match: the pattern with the type's own atoms for its concrete atoms and every generic bound to
its run. -/
structure PatternMatch where
  boundPattern : WordType
deriving DecidableEq, Repr

namespace PatternMatch

/-- The run that the generic with this name captured. -/
def run? (m : PatternMatch) (name : String) : Option (List Atom) :=
  (m.boundPattern.atoms.find? fun a => a.isGeneric && a.name == name).bind Atom.run?

/-- The atom with its generic bound to the captured run, if there is one. -/
def bind (m : PatternMatch) (a : Atom) : Atom :=
  if a.isGeneric then
    match m.run? a.name with
    | some run => .bound a.name a.adjoint run
    | none => a
  else a

/-- The target with the captured runs in place of its generics. -/
def instantiate (m : PatternMatch) (target : WordType) : WordType :=
  WordType.flatten ⟨target.atoms.map m.bind⟩

end PatternMatch

namespace Metarule

/-- The first ways, up to the number wanted, to lay the rest of a pattern on the rest of a type.
`leading` says that the whole pattern is still to be laid, and `untouched` that the whole type is
still uncovered. -/
def fits (leading untouched : Bool) (wanted : Nat) : List Atom → List Atom → List (List Atom)
  | [], [] => [[]].take wanted
  | [], _ :: _ => []
  | p :: ps, candidate =>
    if p.isGeneric then
      Search.sweep
        (fun wanted passed rest =>
          (fits false (untouched && passed.isEmpty) wanted ps rest).map
            (.bound p.name p.adjoint passed.reverse :: ·))
        wanted [] candidate
    else
      match candidate with
      | [] => []
      | a :: rest =>
        if a.agrees p && (leading || !untouched) && (ps.isEmpty || !rest.isEmpty) then
          (fits false false wanted ps rest).map (a :: ·)
        else []

/-- The match of a type with the rule's pattern, if there is one. Two ways to lay the pattern are
enough to know that there are several. -/
def match? (rule : Metarule) (candidate : WordType) :
    Except AmbiguousMatch (Option PatternMatch) :=
  match fits true true 2 rule.pattern.atoms candidate.atoms with
  | [] => .ok none
  | [atoms] => .ok (some ⟨⟨atoms⟩⟩)
  | _ => .error ⟨rule.tag, rule.pattern, candidate⟩

/-- The type that the rule derives from a type that matches it. -/
def apply (rule : Metarule) (candidate : WordType) : Except AmbiguousMatch (Option WordType) :=
  (rule.match? candidate).map (·.map (·.instantiate rule.target))

end Metarule

end PregroupGrammar
