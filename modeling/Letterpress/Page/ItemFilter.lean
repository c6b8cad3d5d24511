import Letterpress.Page.TextFilter
import Letterpress.Page.Token

/-!
# Filters on numbers and items

The filters that make numbers, and those that pick, order, group and add up the items of a datum.
-/

namespace Letterpress.Page

open Datum

/-! ## Numbers -/

/-- The value of a digit; the letters follow the ten digits. -/
def digitValue? (c : Char) : Option Nat :=
  if c.isDigit then some (c.toNat - 48)
  else if 'a' ≤ c && c ≤ 'z' then some (c.toNat - 87)
  else if 'A' ≤ c && c ≤ 'Z' then some (c.toNat - 55)
  else none

/-- The sign at the front of a number, and the rest. -/
def signOf : List Char → Bool × List Char
  | '-' :: rest => (true, rest)
  | '+' :: rest => (false, rest)
  | l => (false, l)

/-- The digits of a number in a base without the mark of the base in front. -/
def withoutBaseMark (base : Nat) (l : List Char) : List Char :=
  let mark (letter : Char) : List Char :=
    match l with
    | '0' :: c :: rest => if c.toLower == letter then rest.dropWhile (· == '_') else l
    | _ => l
  match base with
  | 2 => mark 'b'
  | 8 => mark 'o'
  | 16 => mark 'x'
  | _ => l

/-- The whole number that a text writes in a base. -/
def wholeOfText? (base : Nat) (s : String) : Option Int :=
  let (negative, l) := signOf (Text.stripChars s.toList)
  let l := withoutBaseMark base l
  let isDigit (c : Char) : Bool := (digitValue? c).any (· < base)
  match l with
  | '_' :: _ => none
  | _ =>
    let (digits, rest) := digitRun isDigit l
    if digits.isEmpty || !rest.isEmpty then none
    else
      let n := digits.foldl (fun n c => n * base + (digitValue? c).getD 0) 0
      some (if negative then -(n : Int) else n)

/-- The binary number that a text writes. -/
def realOfText? (s : String) : Option Real :=
  let (negative, l) := signOf (Text.stripChars s.toList)
  let startsWell : Bool :=
    match l with
    | '_' :: _ => false
    | _ => true
  let (digits, rest) := digitRun Char.isDigit l
  let (places, rest) :=
    match rest with
    | ['.'] => ([], [])
    | '.' :: e :: rest' =>
      if (e == 'e' || e == 'E') && !digits.isEmpty then ([], e :: rest') else placesOf rest
    | _ => placesOf rest
  let (power, rest) := powerOf rest
  if !startsWell || (digits.isEmpty && places.isEmpty) || !rest.isEmpty then none
  else
    some (Json.nearestReal negative (Json.decimal (digits ++ places))
      (power.getD 0 - places.length))

/-- A number as a binary number. -/
def realOf? (a : Datum) : Option Real :=
  match a with
  | text _ s => realOfText? s
  | real r => some r
  | _ => a.whole?.map fun n => nearestReal n 1

/-- A datum as a whole number, or the given one. -/
def wholeOr (usual base a : Datum) : Except PageFault Datum := do
  let base := (← wholeArgument base).toNat
  let found : Option Int :=
    match a with
    | text _ s => wholeOfText? base s
    | real r => some r.truncated
    | _ => a.whole?
  match a with
  | undefined => throw .undefinedUse
  | _ =>
    match found, realOf? a with
    | some n, _ => return whole n
    | none, some r => return whole r.truncated
    | none, none => return usual

/-- A number rounded to a number of decimal places, half a unit to the even neighbour. -/
def rounded (r : Real) (places : Int) : Real :=
  match places with
  | .ofNat places => { r with size := r.size.roundPlaces places }
  | .negSucc k =>
    let (num, den) := r.size.fraction
    let unit := Nat.pow 10 (k + 1)
    { r with size := Decimal.Binary64.nearest (Decimal.roundHalfEven num (den * unit) * unit) 1 }

/-- A number rounded in one of three ways: to the nearest, up or down. -/
def roundedBy (way : String) (a : Datum) (places : Int) : Except PageFault Datum :=
  let shifted (turn : Int → Int → Int) : Except PageFault Datum :=
    match a.fraction? with
    | none => .error .wrongType
    | some (num, den) =>
      let unit : Nat := Nat.pow 10 places.toNat
      .ok (real (nearestReal (turn (num * unit) den) unit))
  match way with
  | "ceil" => shifted fun num den => -((-num).fdiv den)
  | "floor" => shifted Int.fdiv
  | "common" =>
    match a with
    | real r => .ok (real (rounded r places))
    | _ =>
      match a.whole?, places with
      | some n, .ofNat _ => .ok (whole n)
      | some n, .negSucc k =>
        let unit := Nat.pow 10 (k + 1)
        let size := Decimal.roundHalfEven n.natAbs unit * unit
        .ok (whole (if n < 0 then -(size : Int) else size))
      | none, _ => .error .wrongType
  | _ => .error .wrongArgument

/-- A size of a file in the greatest fitting unit. -/
def fileSize (a : Datum) (binary : Bool) : Except PageFault Datum :=
  match a, realOf? a with
  | undefined, _ => .error .undefinedUse
  | _, none => .error (match a with
    | text .. => .wrongValue
    | _ => .wrongType)
  | _, some r =>
    let base := if binary then 1024 else 1000
    let letters := if binary then ["KiB", "MiB", "GiB", "TiB", "PiB", "EiB", "ZiB", "YiB"]
      else ["kB", "MB", "GB", "TB", "PB", "EB", "ZB", "YB"]
    let (num, den) := r.size.fraction
    if !r.negative && num == den then .ok (plain "1 Byte")
    else if r.negative || num < base * den then .ok (plain (toString r.truncated ++ " Bytes"))
    else
      let fits (i : Nat) : Bool := num < Nat.pow base (i + 2) * den
      let i := ((List.range letters.length).find? fits).getD (letters.length - 1)
      let size := Log.fixed false 1 num (den * Nat.pow base (i + 1))
      .ok (plain (String.ofList size ++ " " ++ (letters[i]?).getD ""))

/-! ## Items -/

/-- The item of a datum, or its member of that name, or nothing. -/
def lookUp (a key : Datum) : Except PageFault Datum :=
  (itemOf a key).map fun found =>
    (found.or (match key with
      | text _ name => ownMember? a name
      | _ => none)).getD undefined

/-- The steps of an attribute's path: names and places between points. -/
def pathOf : Datum → List Datum
  | null => []
  | text _ s =>
    (Text.splitOnChar '.' s.toList).map fun step =>
      if !step.isEmpty && step.all Char.isDigit then whole (Json.decimal step)
      else plain (String.ofList step)
  | a => [a]

/-- What a path leads to. -/
def follow (usual : Datum) : List Datum → Datum → Except PageFault Datum
  | [], a => .ok a
  | step :: rest, a =>
    match lookUp a step with
    | .error fault => .error fault
    | .ok undefined =>
      match usual with
      | null => follow usual rest undefined
      | _ => follow usual rest usual
    | .ok found => follow usual rest found

/-- Texts in small letters, so that case does not count. -/
def caseless (sensitive : Bool) (a : Datum) : Datum :=
  match a with
  | text safe s => if sensitive then a else text safe (String.ofList (Text.lower s.toList))
  | _ => a

/-- The items of a datum, each with what orders it. -/
def keyed (sensitive : Bool) (path : Datum) (a : Datum) : Except PageFault (List (Datum × Datum)) :=
  match a.items? with
  | none => .error .wrongType
  | some items => items.mapM fun item =>
      (follow null (pathOf path) item).map fun key => (caseless sensitive key, item)

/-- Puts an item among ordered ones, behind its equals. -/
def inserted (turned : Bool) (x : Datum × Datum) :
    List (Datum × Datum) → Except PageFault (List (Datum × Datum))
  | [] => .ok [x]
  | y :: rest =>
    match order x.1 y.1 with
    | .error fault => .error fault
    | .ok found =>
      if found == (if turned then .gt else .lt) then .ok (x :: y :: rest)
      else (inserted turned x rest).map (y :: ·)

/-- The items in order; equal ones stay as they were. -/
def ordered (turned : Bool) (items : List (Datum × Datum)) :
    Except PageFault (List (Datum × Datum)) :=
  items.foldlM (fun sorted x => inserted turned x sorted) []

/-- The first of the items that no other one comes before, or after if `greatest`. -/
def extreme (greatest : Bool) (items : List (Datum × Datum)) : Except PageFault Datum :=
  match items with
  | [] => .ok undefined
  | first :: rest =>
    Prod.snd <$> rest.foldlM (fun (best : Datum × Datum) (x : Datum × Datum) => do
      let found ← order x.1 best.1
      return if found == (if greatest then .gt else .lt) then x else best) first

/-- The items whose keys come up for the first time. -/
def firstOfEach (seen : List Datum) : List (Datum × Datum) → List Datum
  | [] => []
  | (key, item) :: rest =>
    if seen.any key.same then firstOfEach seen rest else item :: firstOfEach (key :: seen) rest

/-- The items in groups of a size. The fuel bounds their number. -/
def grouped (size : Nat) (filler : Datum) : Nat → List Datum → List Datum
  | 0, _ => []
  | _, [] => []
  | fuel + 1, items =>
    let group := items.take size
    let missing := match filler with
      | null => []
      | _ => List.replicate (size - group.length) filler
    list (group ++ missing) :: grouped size filler fuel (items.drop size)

/-- The items in a number of groups as equal as can be, the longer ones first. -/
def divided (count : Nat) (filler : Datum) (items : List Datum) : List Datum :=
  let size := items.length / count
  let longer := items.length % count
  (List.range count).map fun i =>
    let start := i * size + min i longer
    let group := (items.drop start).take (if i < longer then size + 1 else size)
    list (match filler with
      | null => group
      | _ => if longer ≤ i then group ++ [filler] else group)

/-- The shown items with a text between them. If one of them is safe, the others are escaped. -/
def joinedItems (escaping : Bool) (between : Datum) (items : List Datum) : Datum :=
  let safe := escaping && (between.isSafe || items.any isSafe)
  let piece (a : Datum) : String := if safe then markupOf a else a.shown
  text safe ((piece between).intercalate (items.map piece))

/-- The items of a datum, which has to have some. -/
def itemsOf (a : Datum) : Except PageFault (List Datum) :=
  match a.items? with
  | some items => .ok items
  | none => .error .wrongType

/-- A filter on the ordered items of a datum. -/
def onKeyed (parameters : Signature)
    (apply : List Datum → List (Datum × Datum) → Except PageFault Datum) : Filter :=
  { parameters
    apply := fun a args => do
      let find (name : String) : Datum :=
        ((parameters.map (·.1)).zip args |>.lookup name).getD null
      apply args (← keyed (find "case_sensitive").isTrue (find "attribute") a) }

/-- The filters on numbers and items. -/
def itemFilter? (escaping : Bool) : String → Option Filter
  | "abs" =>
    some
      { apply := fun a _ =>
          match a with
          | real r => .ok (real { r with negative := false })
          | _ =>
            match a.whole? with
            | some n => .ok (whole n.natAbs)
            | none => .error .wrongType }
  | "int" =>
    some
      { parameters := [("default", some (whole 0)), ("base", some (whole 10))]
        apply := fun a args => wholeOr (args.headD null) ((args[1]?).getD null) a }
  | "float" =>
    some
      { parameters := [("default", some (real { size := ⟨0, 0⟩ }))]
        apply := fun a args =>
          match a, realOf? a with
          | undefined, _ => .error .undefinedUse
          | _, some r => .ok (real r)
          | _, none => .ok (args.headD null) }
  | "round" =>
    some
      { parameters := [("precision", some (whole 0)), ("method", some (plain "common"))]
        apply := fun a args =>
          match args with
          | [places, way] => (wholeArgument places).bind (roundedBy way.shown a)
          | _ => .error .wrongType }
  | "filesizeformat" =>
    some
      { parameters := [("binary", some (.bool false))]
        apply := fun a args => fileSize a (args.headD null).isTrue }
  | "d" | "default" =>
    some
      { parameters := [("default_value", some (plain "")), ("boolean", some (.bool false))]
        apply := fun a args =>
          let usual := args.headD null
          match a with
          | undefined => .ok usual
          | _ => .ok (if ((args[1]?).getD null).isTrue && !a.isTrue then usual else a) }
  | "count" | "length" =>
    some
      { apply := fun a _ =>
          match a.length? with
          | some n => .ok (whole n)
          | none => .error .wrongType }
  | "first" => some { apply := fun a _ => (itemsOf a).map fun items => items.headD undefined }
  | "last" =>
    some
      { apply := fun a _ =>
          match a with
          | stream _ => .error .wrongType
          | _ => (itemsOf a).map fun items => items.getLastD undefined }
  | "list" => some { apply := fun a _ => (itemsOf a).map list }
  | "reverse" =>
    some
      { apply := fun a _ =>
          match a with
          | text safe s => .ok (text safe (String.ofList s.toList.reverse))
          | undefined => .ok (stream [])
          | _ =>
            match a.items? with
            | some items => .ok (stream items.reverse)
            | none => .error .wrongArgument }
  | "join" =>
    some
      { parameters := [("d", some (plain "")), ("attribute", some null)]
        apply := fun a args => do
          let items ← (← itemsOf a).mapM (follow null (pathOf ((args[1]?).getD null)))
          return joinedItems escaping (args.headD null) items }
  | "sum" =>
    some
      { parameters := [("attribute", some null), ("start", some (whole 0))]
        apply := fun a args => do
          let items ← (← itemsOf a).mapM (follow null (pathOf (args.headD null)))
          items.foldlM (arithmetic .plus) ((args[1]?).getD null) }
  | "sort" =>
    some <| onKeyed
      [("reverse", some (.bool false)), ("case_sensitive", some (.bool false)),
       ("attribute", some null)]
      fun args items => (ordered (args.headD null).isTrue items).map fun found =>
        list (found.map (·.2))
  | "unique" =>
    some <| onKeyed [("case_sensitive", some (.bool false)), ("attribute", some null)]
      fun _ items => .ok (stream (firstOfEach [] items))
  | "min" =>
    some <| onKeyed [("case_sensitive", some (.bool false)), ("attribute", some null)]
      fun _ items => extreme false items
  | "max" =>
    some <| onKeyed [("case_sensitive", some (.bool false)), ("attribute", some null)]
      fun _ items => extreme true items
  | "batch" =>
    some
      { parameters := [("linecount", none), ("fill_with", some null)]
        apply := fun a args => do
          let items ← itemsOf a
          let size ← wholeArgument (args.headD null)
          return stream (grouped size.toNat ((args[1]?).getD null) items.length items) }
  | "slice" =>
    some
      { parameters := [("slices", none), ("fill_with", some null)]
        apply := fun a args => do
          let items ← itemsOf a
          let count ← wholeArgument (args.headD null)
          if count = 0 then throw .divisionByZero
          return stream (divided count.toNat ((args[1]?).getD null) items) }
  | "items" =>
    some
      { apply := fun a _ =>
          match a with
          | undefined => .ok (stream [])
          | table entries => .ok (stream (entries.map fun (key, item) => tuple [key, item]))
          | _ => .error .wrongType }
  | "dictsort" =>
    some
      { parameters :=
          [("case_sensitive", some (.bool false)), ("by", some (plain "key")),
           ("reverse", some (.bool false))]
        apply := fun a args => do
          match a, args with
          | undefined, _ => throw .undefinedUse
          | table entries, [sensitive, field, turned] =>
            if field.shown != "key" && field.shown != "value" then throw .wrongArgument
            let items := entries.map fun (key, item) =>
              (caseless sensitive.isTrue (if field.shown == "key" then key else item),
                tuple [key, item])
            return list ((← ordered turned.isTrue items).map (·.2))
          | _, _ => throw .missingMember }
  | "attr" =>
    some
      { parameters := [("name", none)]
        apply := fun a args =>
          match a with
          | undefined => .error .undefinedUse
          | _ => .ok ((ownMember? a (args.headD null).shown).getD undefined) }
  | _ => none

end Letterpress.Page
