import LinkedCommit.Iri.Syntax
/-!
# Language tags

A language tag is a language, then at most three extended languages, a script, a region,
variants, extensions and a private part, all between hyphens; a private part may also stand
alone, and a few older tags are accepted as they are.  `isLanguageTag` reads the subtags from left
to right.
-/

set_option autoImplicit false

namespace LinkedCommit.LanguageTag

inductive Stage where
  | start
  | language (extended : Nat)
  | extended
  | script
  | region
  /-- Inside an extension; whether a subtag must still follow. -/
  | extension (pending : Bool)
  | privateUse (pending : Bool)
deriving DecidableEq

def irregular : List String :=
  ["art-lojban", "cel-gaulish", "en-gb-oed", "i-ami", "i-bnn", "i-default", "i-enochian", "i-hak",
   "i-klingon", "i-lux", "i-mingo", "i-navajo", "i-pwn", "i-tao", "i-tay", "i-tsu", "no-bok",
   "no-nyn", "sgn-be-fr", "sgn-be-nl", "sgn-ch-de", "zh-guoyu", "zh-hakka", "zh-min", "zh-min-nan",
   "zh-xiang"]

def afterLanguage (stage : Stage) (t : List Char) : Option Stage :=
  let letters := t.all Char.isAlpha
  let digits := t.all Char.isDigit
  let beforeScript := match stage with
    | .language _ | .extended => true
    | _ => false
  if beforeScript && t.length = 4 && letters then some .script
  else if (beforeScript || stage = .script)
      && ((t.length = 2 && letters) || (t.length = 3 && digits)) then some .region
  else if (beforeScript || stage = .script || stage = .region) && t.all Char.isAlphanum
      && ((5 ≤ t.length && (t.take 1).all Char.isAlpha)
        || (4 ≤ t.length && (t.take 1).all Char.isDigit)) then some .region
  else none

def step (stage : Stage) (t : List Char) : Option Stage :=
  if t.isEmpty || 8 < t.length then none
  else
    match stage with
    | .start =>
      if t.length < 2 || !t.all Char.isAlpha then none
      else some (if t.length < 4 then .language 0 else .extended)
    | .privateUse _ => if t.all Char.isAlphanum then some (.privateUse false) else none
    | stage =>
      if t = ['x'] || t = ['X'] then
        if stage = .extension true then none else some (.privateUse true)
      else if t.length = 1 && t.all Char.isAlphanum then
        if stage = .extension true then none else some (.extension true)
      else
        match stage with
        | .extension _ => if t.all Char.isAlphanum then some (.extension false) else none
        | .language n =>
          if t.length = 3 && t.all Char.isAlpha then
            if n < 3 then some (.language (n + 1)) else none
          else afterLanguage stage t
        | stage => afterLanguage stage t

def isComplete : Stage → Bool
  | .start | .extension true | .privateUse true => false
  | _ => true

end LinkedCommit.LanguageTag

namespace LinkedCommit

def isLanguageTag (s : String) : Bool :=
  let cs := s.toList.map Char.toLower
  if LanguageTag.irregular.contains (String.ofList cs) then true
  else if cs.take 2 = ['x', '-'] then
    2 < cs.length && cs.all fun c => c.isAlphanum || c = '-'
  else
    match (Iri.splitOn '-' cs).foldlM LanguageTag.step .start with
    | some stage => LanguageTag.isComplete stage
    | none => false

end LinkedCommit
