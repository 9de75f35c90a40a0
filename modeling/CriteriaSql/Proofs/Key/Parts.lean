/-
CriteriaSql/Proofs/Key/Parts.lean

What becomes of the characters of a key.

The scan takes the next characters for a mark or for one that it keeps
(`Event`), and goes on by one event after the other (`scan_eq`), so that the
events spell the field expression (`text_events`).  A part is finished by the
next mark or at the end.  A state follows another one by the parts that are
finished in between (`Follows`): one event is a step of that kind (`follows_act`),
and so is a run of events (`follows_foldl_act`).

The column takes all its parts, and the path each of its own; but a cast takes
the place of the one before it.  Main result: all that is kept stays in the key,
and no cast is overwritten, exactly when there is at most one (`keepsAll_iff`).
This is not so for all keys (`not_forall_keepsAll`).
-/
import CriteriaSql.Proofs.Key.RoundTrip

namespace CriteriaSql.Key

open Text (isBlank trim)

/-! ### Marks and kept characters -/

/-- What the next characters of a key are taken for: a quote, a character that
is kept, or one of the marks between parts. -/
inductive Event where
  | quote
  | keep (c : Char)
  | dot
  | opening
  | closing
  | colons
deriving DecidableEq, Repr

namespace Event

/-- The characters that an event stands for. -/
def text : Event → List Char
  | quote => ['"']
  | keep c => [c]
  | dot => ['.']
  | opening => ['[']
  | closing => [']']
  | colons => [':', ':']

/-- The character that is kept. -/
def kept? : Event → Option Char
  | keep c => some c
  | _ => none

/-- Whether the part that is being read is finished. -/
def isMark : Event → Bool
  | quote => false
  | keep _ => false
  | _ => true

end Event

namespace Scan

/-- What an event does. -/
def act (s : Scan) : Event → Scan
  | .quote => { s with quoted := !s.quoted }
  | .keep c => s.push c
  | .dot => s.switch .member
  | .opening => s.switch .index
  | .closing => s.flush
  | .colons => s.switch .cast

/-- The next event, with the text behind it; there is none at a blank outside
quotes and at the end.  Between quotes everything but a quote is kept.  Outside
of them dots are marks, brackets are marks except in a cast, and two colons are
one as long as no cast has been captured. -/
def event? (s : Scan) : List Char → Option (Event × List Char)
  | [] => none
  | ':' :: ':' :: rest =>
    if !s.quoted && s.cast.isNone then some (.colons, rest) else some (.keep ':', ':' :: rest)
  | c :: cs =>
    if s.quoted then
      if c = '"' then some (.quote, cs) else some (.keep c, cs)
    else if c = '"' then some (.quote, cs)
    else if c = '.' then some (.dot, cs)
    else if s.slot = .cast && (c = '[' || c = ']') then some (.keep c, cs)
    else if c = '[' then some (.opening, cs)
    else if c = ']' then some (.closing, cs)
    else if isBlank c then none
    else some (.keep c, cs)

/-- An event takes its characters off the text. -/
theorem text_append_of_event? {s : Scan} {cs rest : List Char} {e : Event}
    (h : s.event? cs = some (e, rest)) : e.text ++ rest = cs := by
  revert h
  fun_cases event? s cs <;> rintro ⟨⟩ <;> rfl

theorem length_lt_of_event? {s : Scan} {cs rest : List Char} {e : Event}
    (h : s.event? cs = some (e, rest)) : rest.length < cs.length := by
  rw [← text_append_of_event? h, List.length_append]
  cases e <;> simp [Event.text]

/-- The scan does what the next event says, and ends where there is none. -/
theorem scan_eq (s : Scan) (cs : List Char) : scan s cs = match s.event? cs with
    | none => (s.flush, cs)
    | some (e, rest) => scan (s.act e) rest := by
  fun_cases event? s cs
  case case1 => rw [scan]
  all_goals simp_all [scan, act]

/-- The events of a text, up to the first blank outside quotes. -/
def events (s : Scan) (cs : List Char) : List Event :=
  match _h : s.event? cs with
  | none => []
  | some (e, rest) => e :: events (s.act e) rest
termination_by cs.length
decreasing_by exact length_lt_of_event? _h

/-- The events spell what is read of a text. -/
theorem text_events (s : Scan) (cs : List Char) :
    (s.events cs).flatMap Event.text ++ (scan s cs).2 = cs := by
  fun_induction events s cs with
  | case1 s cs h => rw [scan_eq, h, List.flatMap_nil, List.nil_append]
  | case2 s cs e rest h ih =>
    rw [scan_eq, h, List.flatMap_cons, List.append_assoc, ih, text_append_of_event? h]

/-- The scan ends at a blank or at the end of the text. -/
theorem isBlank_of_head?_scan (s : Scan) (cs : List Char) :
    ∀ c ∈ (scan s cs).2.head?, isBlank c = true := by
  fun_induction events s cs with
  | case1 s cs h =>
    rw [scan_eq, h]
    revert h
    fun_cases event? s cs <;> rintro ⟨⟩ <;> simp_all
  | case2 s cs e rest h ih =>
    rw [scan_eq, h]
    exact ih

/-- What has been read is what the events do, one after the other, with the last
part finished. -/
theorem scan_fst (s : Scan) (cs : List Char) :
    (scan s cs).1 = ((s.events cs).foldl act s).flush := by
  fun_induction events s cs with
  | case1 s cs h => rw [scan_eq, h, List.foldl_nil]
  | case2 s cs e rest h ih => rw [scan_eq, h, List.foldl_cons, ih]

end Scan

/-! ### Parts -/

/-- The characters that have been read for a slot. -/
structure Part where
  slot : Slot
  chars : List Char
deriving DecidableEq, Repr

namespace Part

/-- What the column gets of a part. -/
def columnChars (p : Part) : List Char :=
  if p.slot = .column then p.chars else []

/-- The step that a part is, unless it is empty. -/
def step? (p : Part) : Option Step :=
  if p.chars = [] then none
  else match p.slot with
    | .member => some (.member (String.ofList p.chars))
    | .index => some (.index (String.ofList p.chars))
    | .column | .cast => none

/-- The cast that a part is, unless it is empty. -/
def cast? (p : Part) : Option (List Char) :=
  if p.slot = .cast ∧ p.chars ≠ [] then some p.chars else none

end Part

namespace Scan

/-- The part that is being read. -/
def part (s : Scan) : Part :=
  ⟨s.slot, s.token⟩

/-- The states in which a part is finished, by a mark or by the end. -/
def finished (s : Scan) : List Event → List Scan
  | [] => [s]
  | e :: es => if e.isMark then s :: finished (s.act e) es else finished (s.act e) es

/-- The parts of a run of events. -/
def parts (s : Scan) (es : List Event) : List Part :=
  (s.finished es).map part

theorem parts_cons (s : Scan) (e : Event) (es : List Event) :
    s.parts (e :: es) = (if e.isMark then [s.part] else []) ++ (s.act e).parts es := by
  rw [parts, finished]
  split <;> rfl

/-- Nothing is kept but in a part, and in the order of the text. -/
theorem chars_parts (s : Scan) (es : List Event) :
    (s.parts es).flatMap Part.chars = s.token ++ es.filterMap Event.kept? := by
  induction es generalizing s with
  | nil => simp [parts, finished, part]
  | cons e es ih =>
    rw [parts_cons, List.flatMap_append, ih]
    cases e <;> simp [List.filterMap_cons, Event.isMark, Event.kept?, act, push, switch, part]

/-- The second state has read these parts more than the first. -/
structure Follows (s : Scan) (parts : List Part) (s' : Scan) : Prop where
  column_eq : s'.columnChars = s.columnChars ++ parts.flatMap Part.columnChars
  path_eq : s'.path = s.path ++ parts.filterMap Part.step?
  cast_eq : s'.cast = (parts.filterMap Part.cast?).getLast?.or s.cast

theorem Follows.trans {s s' s'' : Scan} {ps qs : List Part} (h : s.Follows ps s')
    (h' : s'.Follows qs s'') : s.Follows (ps ++ qs) s'' where
  column_eq := by rw [h'.column_eq, h.column_eq, List.flatMap_append, List.append_assoc]
  path_eq := by rw [h'.path_eq, h.path_eq, List.filterMap_append, List.append_assoc]
  cast_eq := by
    rw [h'.cast_eq, h.cast_eq, List.filterMap_append, List.getLast?_append, Option.or_assoc]

/-- Finishing a part reads it. -/
theorem follows_flush (s : Scan) : s.Follows [s.part] s.flush := by
  obtain ⟨columnChars, path, cast, slot, token, quoted⟩ := s
  cases slot <;> by_cases htoken : token = [] <;> constructor <;>
    simp [flush, part, Part.columnChars, Part.step?, Part.cast?, htoken]

/-- One event reads the part that it finishes, if it is a mark. -/
theorem follows_act (s : Scan) (e : Event) :
    s.Follows (if e.isMark then [s.part] else []) (s.act e) := by
  have hsame : ∀ token quoted, s.Follows [] { s with token, quoted } := fun token quoted =>
    ⟨(List.append_nil _).symm, (List.append_nil _).symm, rfl⟩
  have hflush := follows_flush s
  cases e with
  | quote => exact hsame _ _
  | keep c => exact hsame _ _
  | dot | opening | colons => exact ⟨hflush.column_eq, hflush.path_eq, hflush.cast_eq⟩
  | closing => exact hflush

/-- A run of events reads its parts. -/
theorem follows_foldl_act (s : Scan) (es : List Event) :
    s.Follows (s.parts es) (es.foldl act s).flush := by
  induction es generalizing s with
  | nil => exact follows_flush s
  | cons e es ih =>
    rw [parts_cons]
    exact (follows_act s e).trans (ih (s.act e))

/-! ### Casts -/

/-- A cast has been captured, and finishing the part puts another one in its
place. -/
def Overwrites (s : Scan) : Prop :=
  s.cast ≠ none ∧ s.part.cast? ≠ none

/-- No cast is overwritten when there is at most one, counting the one that has
been captured before. -/
theorem forall_not_overwrites_iff (s : Scan) (es : List Event) :
    (∀ t ∈ s.finished es, ¬t.Overwrites)
      ↔ (s.cast.toList ++ (s.parts es).filterMap Part.cast?).length ≤ 1 := by
  -- a mark turns the part before it into the captured cast, if it is one, so that the sum stays
  -- the same as long as nothing is captured twice
  induction es generalizing s with
  | nil =>
    rw [finished, List.forall_mem_singleton, Overwrites, parts, finished, List.map_singleton]
    rcases s.cast with - | c <;> rcases hpart : s.part.cast? with - | d <;> simp [hpart]
  | cons e es ih =>
    have hcast := (follows_act s e).cast_eq
    rw [parts_cons, List.filterMap_append, finished]
    by_cases hmark : e.isMark = true
    · rw [if_pos hmark, List.forall_mem_cons, ih]
      rw [if_pos hmark] at hcast ⊢
      rw [hcast, Overwrites]
      rcases s.cast with - | c <;> rcases hpart : s.part.cast? with - | d <;> simp [hpart]
    · rw [if_neg hmark, ih]
      rw [if_neg hmark] at hcast ⊢
      rw [hcast]
      rfl

end Scan

/-! ### Main result -/

/-- The events of a key. -/
def eventsOf (text : String) : List Event :=
  Scan.start.events (trim text.toList)

/-- The parts of a key. -/
def partsOf (text : String) : List Part :=
  Scan.start.parts (eventsOf text)

/-- Every part of a key stays in it: in the column, as a step, or as the cast;
and no cast is overwritten when a part is finished. -/
structure KeepsAll (text : String) : Prop where
  column_eq : (parse text).column.toList = (partsOf text).flatMap Part.columnChars
  path_eq : (parse text).path = (partsOf text).filterMap Part.step?
  cast_eq : (parse text).cast.toList.map String.toList = (partsOf text).filterMap Part.cast?
  not_overwrites : ∀ s ∈ Scan.start.finished (eventsOf text), ¬s.Overwrites

/-- A key has read all parts of its column and of its path, and of the casts the
last one. -/
theorem parse_parts (text : String) :
    (parse text).column.toList = (partsOf text).flatMap Part.columnChars
      ∧ (parse text).path = (partsOf text).filterMap Part.step?
      ∧ (parse text).cast.map String.toList = ((partsOf text).filterMap Part.cast?).getLast? := by
  have hread := Scan.follows_foldl_act Scan.start (eventsOf text)
  rw [eventsOf, ← Scan.scan_fst] at hread
  refine ⟨String.toList_ofList.trans hread.column_eq, hread.path_eq, ?_⟩
  calc (parse text).cast.map String.toList
      = ((scan Scan.start (trim text.toList)).1.cast.map String.ofList).map String.toList := rfl
    _ = (scan Scan.start (trim text.toList)).1.cast := by simp [Function.comp_def]
    _ = ((partsOf text).filterMap Part.cast?).getLast? := by
      rw [hread.cast_eq, partsOf, eventsOf]
      exact Option.or_none

/-- The events of a key spell it up to the first blank outside quotes, and the
parts hold what they keep, in order.  All of this stays in the key, and no cast
is overwritten, exactly when the key has at most one cast. -/
theorem keepsAll_iff (text : String) :
    (∃ rest, (eventsOf text).flatMap Event.text ++ rest = trim text.toList
        ∧ ∀ c ∈ rest.head?, isBlank c = true)
      ∧ (partsOf text).flatMap Part.chars = (eventsOf text).filterMap Event.kept?
      ∧ (KeepsAll text ↔ ((partsOf text).filterMap Part.cast?).length ≤ 1) := by
  obtain ⟨hcolumn, hpath, hcast⟩ := parse_parts text
  have honce := Scan.forall_not_overwrites_iff Scan.start (eventsOf text)
  refine ⟨⟨_, Scan.text_events _ _, Scan.isBlank_of_head?_scan _ _⟩, Scan.chars_parts _ _,
    fun h => honce.mp h.not_overwrites, fun h => ⟨hcolumn, hpath, ?_, honce.mpr h⟩⟩
  rw [← Option.toList_map, hcast]
  rcases hcasts : (partsOf text).filterMap Part.cast? with - | ⟨c, - | ⟨d, casts⟩⟩
  · rfl
  · rfl
  · rw [hcasts] at h
    simp at h

/-- A second pair of colons begins another cast, because the first one is
captured only then; the guard comes too late, and the first cast is lost. -/
theorem not_forall_keepsAll :
    parse "a::b::c" = ⟨"a", [], some "c", ""⟩
      ∧ partsOf "a::b::c" = [⟨.column, ['a']⟩, ⟨.cast, ['b']⟩, ⟨.cast, ['c']⟩]
      ∧ ¬∀ text, KeepsAll text := by
  have hkey : parse "a::b::c" = ⟨"a", [], some "c", ""⟩ := by decide +kernel
  have hparts : partsOf "a::b::c" = [⟨.column, ['a']⟩, ⟨.cast, ['b']⟩, ⟨.cast, ['c']⟩] := by
    decide +kernel
  refine ⟨hkey, hparts, fun h => ?_⟩
  have hcast := (h "a::b::c").cast_eq
  rw [hkey, hparts] at hcast
  revert hcast
  decide

end CriteriaSql.Key
