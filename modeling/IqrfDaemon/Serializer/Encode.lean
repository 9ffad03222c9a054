import IqrfDaemon.Serializer.Json

/-!
# Encoding responses

A created object keeps the members of its request and encodes the response of a
transaction from them and from the library's messages.  The document is built in
a member that no encoder clears, so it grows with each encoding.
-/

namespace IqrfDaemon.Serializer

open Json

/-- What the library prints: bytes, and the local time of a number of seconds. -/
structure Printers where
  tracerHexString : List Byte → String
  strftime : ℤ → String

/-- What a transaction leaves to be encoded; `errStr` is the text of its result. -/
structure Transaction where
  response : DpaMessage
  confirmation : DpaMessage
  requestTs : ℤ
  confirmationTs : ℤ
  responseTs : ℤ
  temperature : String
  ledState : ℤ
  errStr : String

def Transaction.responded (tx : Transaction) : Bool := 0 < tx.response.length

/-- The offsets of a response packet behind its header. -/
def responseCodeOffset : ℕ := 6
def dpaValueOffset : ℕ := 7
def responseDataOffset : ℕ := 8

/-! ## Texts -/

/-- `encodeHexaNum` for a number of digits. -/
def encodeHexaNum (width n : ℕ) : String :=
  let digits := Nat.toDigits 16 n
  String.ofList (List.replicate (width - digits.length) '0' ++ digits)

def dropLast (s : List Char) (c : Char) : List Char :=
  if s.getLast? = some c then s.dropLast else s

/-- `encodeBinary`: the old text of the member decides with the flag on dots. -/
def encodeBinary (p : Printers) (dotNotation : Bool) (to_ : String) (from_ : List Byte) : String :=
  let text := (p.tracerHexString from_).toList
  if from_ = [] then ""
  else if dotNotation || '.' ∈ to_.toList then
    String.ofList (dropLast (text.map fun c ↦ if c = ' ' then '.' else c) '.')
  else String.ofList (dropLast text ' ')

/-- `encodeTimestamp` of a time point in nanoseconds. -/
def encodeTimestamp (p : Printers) (from_ : ℤ) : String :=
  if from_ = 0 then ""
  else p.strftime (from_.tdiv 1000000000) ++ "." ++ toString ((from_.tdiv 1000).tmod 1000000)

/-! ## The common members -/

namespace PrfCommonJson

/-- `m_doc.AddMember` -/
def addMember (c : PrfCommonJson) (name : String) (v : Value) : PrfCommonJson :=
  { c with doc := c.doc ++ [(name, v)] }

/-- A kept text is added if its request had one. -/
def put (c : PrfCommonJson) (name : String) (k : Kept String) : PrfCommonJson :=
  if k.has then c.addMember name (.string (cString k.value)) else c

/-- A kept text with its value replaced where it is encoded. -/
def refresh (k : Kept String) (v : String) : Kept String := if k.has then ⟨true, v⟩ else k

def addResponseJsonPrio1Params (c : PrfCommonJson) (tx : Transaction) : PrfCommonJson :=
  let c := c.put "ctype" c.ctype
  let c := c.put "type" c.type
  let c := c.put "msgid" c.msgid
  let c := if c.timeoutJ.has then c.addMember "timeout" (.int c.timeoutJ.value) else c
  let c := if tx.responded then c else { c with nadr := refresh c.nadr "" }
  c.put "nadr" c.nadr

def addResponseJsonPrio2Params (c : PrfCommonJson) (tx : Transaction) : PrfCommonJson :=
  let c := if tx.responded then c else { c with cmdJ := refresh c.cmdJ "" }
  let c := c.put "cmd" c.cmdJ
  let c := if tx.responded then c else { c with hwpid := refresh c.hwpid "" }
  c.put "hwpid" c.hwpid

/-- The data of a response, behind its code and value. -/
def responseData (tx : Transaction) : List Byte :=
  (List.range (tx.response.length - headerSize - 2).toNat).map fun i ↦
    tx.response.buffer (responseDataOffset + i)

/-- The text of `rdata`: an answer without data leaves the old one. -/
def encodeData (p : Printers) (c : PrfCommonJson) (tx : Transaction) : String :=
  if !tx.responded then ""
  else if responseData tx = [] then c.rdataJ.value
  else encodeBinary p c.dotNotation c.rdataJ.value (responseData tx)

/-- `encodeResponseJsonFinal`, the part about the answer. -/
def addAnswer (c : PrfCommonJson) (p : Printers) (tx : Transaction) : PrfCommonJson :=
  let code := encodeHexaNum 2 (tx.response.buffer responseCodeOffset).toNat
  let c := { c with rcodeJ := refresh c.rcodeJ (if tx.responded then code else "") }
  let c := c.put "rcode" c.rcodeJ
  let value := encodeHexaNum 2 (tx.response.buffer dpaValueOffset).toNat
  let c := { c with dpavalJ := refresh c.dpavalJ (if tx.responded then value else "") }
  let c := c.put "dpaval" c.dpavalJ
  let c := { c with rdataJ := refresh c.rdataJ (encodeData p c tx) }
  c.put "rdata" c.rdataJ

/-- `encodeResponseJsonFinal`, the part about the messages and their times. -/
def addMessages (c : PrfCommonJson) (p : Printers) (request : DpaMessage) (tx : Transaction) :
    PrfCommonJson :=
  let c := { c with
    requestJ := refresh c.requestJ (encodeBinary p c.dotNotation c.requestJ.value request.bytes) }
  let c := c.put "request" c.requestJ
  let c := { c with request_ts := refresh c.request_ts (encodeTimestamp p tx.requestTs) }
  let c := c.put "request_ts" c.request_ts
  let c := { c with
    confirmationJ := refresh c.confirmationJ
      (encodeBinary p c.dotNotation c.confirmationJ.value tx.confirmation.bytes) }
  let c := c.put "confirmation" c.confirmationJ
  let c := { c with
    confirmation_ts := refresh c.confirmation_ts (encodeTimestamp p tx.confirmationTs) }
  let c := c.put "confirmation_ts" c.confirmation_ts
  let c := { c with
    responseJ := refresh c.responseJ
      (encodeBinary p c.dotNotation c.responseJ.value tx.response.bytes) }
  let c := c.put "response" c.responseJ
  let c := { c with response_ts := refresh c.response_ts (encodeTimestamp p tx.responseTs) }
  c.put "response_ts" c.response_ts

/-- `encodeResponseJsonFinal`: the object and the document that is written out. -/
def encodeResponseJsonFinal (c : PrfCommonJson) (p : Printers) (request : DpaMessage)
    (tx : Transaction) : PrfCommonJson × List (String × Value) :=
  let c := (c.addAnswer p tx).addMessages p request tx
  let c := c.addMember "status" (.string (cString c.statusJ))
  (c, c.doc)

end PrfCommonJson

/-! ## The classes -/

def PrfRawJson.encodeResponse (p : Printers) (c : PrfCommonJson) (request : DpaMessage)
    (tx : Transaction) : PrfCommonJson × List (String × Value) :=
  let c := if c.dotNotation then { c with responseJ := ⟨c.responseJ.has, "."⟩ } else c
  let c := { c with responseJ := ⟨true, c.responseJ.value⟩, statusJ := tx.errStr }
  let c := c.addResponseJsonPrio1Params tx
  let c := c.addResponseJsonPrio2Params tx
  c.encodeResponseJsonFinal p request tx

def wordAt (m : DpaMessage) (offset : ℕ) : ℕ :=
  (m.buffer offset).toNat + 256 * (m.buffer (offset + 1)).toNat

/-- The fields of a response header; unanswered, they are cleared. -/
def headerText (tx : Transaction) (width n : ℕ) : String :=
  if tx.responded then encodeHexaNum width n else ""

/-- The texts of `pnum` and `pcmd` are replaced before they are read again. -/
def PrfRawHdpJson.encodeResponse (p : Printers) (c : PrfCommonJson) (request : DpaMessage)
    (tx : Transaction) : PrfCommonJson × List (String × Value) :=
  let c := c.addResponseJsonPrio1Params tx
  let pnum := headerText tx 2 (tx.response.buffer pnumOffset).toNat
  let pcmd := headerText tx 2 (tx.response.buffer pcmdOffset).toNat
  let hwpid := headerText tx 4 (wordAt tx.response hwpidOffset)
  let c := { c with hwpid := ⟨true, hwpid⟩ }
  let c := c.addMember "pnum" (.string (cString pnum))
  let c := c.addMember "pcmd" (.string (cString pcmd))
  let c := { c with
    rcodeJ := ⟨true, c.rcodeJ.value⟩
    rdataJ := ⟨true, c.rdataJ.value⟩
    dpavalJ := ⟨true, c.dpavalJ.value⟩
    statusJ := tx.errStr }
  let c := c.addResponseJsonPrio2Params tx
  c.encodeResponseJsonFinal p request tx

def PrfThermometerJson.encodeResponse (p : Printers) (c : PrfCommonJson) (request : DpaMessage)
    (tx : Transaction) : PrfCommonJson × List (String × Value) :=
  let c := c.addResponseJsonPrio1Params tx
  let c := c.addResponseJsonPrio2Params tx
  let c := c.addMember "temperature" (.real tx.temperature)
  { c with statusJ := tx.errStr }.encodeResponseJsonFinal p request tx

def PrfLedJson.encodeResponse (p : Printers) (c : PrfCommonJson) (request : DpaMessage)
    (tx : Transaction) : PrfCommonJson × List (String × Value) :=
  let c := c.addResponseJsonPrio1Params tx
  let c := c.addResponseJsonPrio2Params tx
  let c :=
    if 0 ≤ tx.ledState then
      c.addMember "led_state" (.string (if tx.ledState = 0 then "off" else "on"))
    else c
  { c with statusJ := tx.errStr }.encodeResponseJsonFinal p request tx

variable {lib : DpaLibrary}

/-- The encoders of the classes that are not modelled further. -/
abbrev OtherEncoders : Type :=
  JsonClass → PrfCommonJson → DpaMessage → Transaction → PrfCommonJson × List (String × Value)

/-- The virtual call of `encodeResponse`. -/
def encodeWith (p : Printers) (other : OtherEncoders) (kind : JsonClass) :
    PrfCommonJson → DpaMessage → Transaction → PrfCommonJson × List (String × Value) :=
  match kind with
  | .raw => PrfRawJson.encodeResponse p
  | .rawHdp _ _ _ => PrfRawHdpJson.encodeResponse p
  | .thermometer => PrfThermometerJson.encodeResponse p
  | .ledG => PrfLedJson.encodeResponse p
  | .ledR => PrfLedJson.encodeResponse p
  | .frc => other .frc
  | .io => other .io
  | .os => other .os

def encodeResponse (p : Printers) (other : OtherEncoders) (o : JsonTask lib) (tx : Transaction) :
    JsonTask lib × List (String × Value) :=
  let encoded := encodeWith p other o.kind o.common o.task.request tx
  ({ o with common := encoded.1 }, encoded.2)

/-- The documents of a sequence of transactions on one object. -/
def encodeAll (p : Printers) (other : OtherEncoders) :
    JsonTask lib → List Transaction → List (List (String × Value))
  | _, [] => []
  | o, tx :: txs =>
      (encodeResponse p other o tx).2 :: encodeAll p other (encodeResponse p other o tx).1 txs

/-- An object of one of the four families, as its creator builds it from a request. -/
inductive BuiltFrom (lib : DpaLibrary) (val : Value) (o : JsonTask lib) : Prop
  | raw (built : prfRawJson lib val = .ok o)
  | rawHdp (built : prfRawHdpJson lib val = .ok o)
  | thermometer (built : prfThermometerJson lib val = .ok o)
  | ledG (built : prfLedGJson lib val = .ok o)
  | ledR (built : prfLedRJson lib val = .ok o)

/-- Each document has distinct names and is the one the object as built gives for that
transaction alone. -/
def Independent (p : Printers) (other : OtherEncoders) (o : JsonTask lib)
    (txs : List Transaction) : Prop :=
  List.Forall₂ (fun tx doc ↦ (doc.map Prod.fst).Nodup ∧ doc = (encodeResponse p other o tx).2) txs
    (encodeAll p other o txs)

/-! ## The names of a document -/

/-- A step adds some of the names to the document, in order. -/
def Adds (names : List String) (doc doc' : List (String × Value)) : Prop :=
  ∃ added : List String, added.Sublist names ∧ doc'.map Prod.fst = doc.map Prod.fst ++ added

section Adds

variable {names : List String} {doc : List (String × Value)} {c : PrfCommonJson}

theorem Adds.start {doc' : List (String × Value)} (h : doc' = doc) : Adds [] doc doc' :=
  ⟨[], List.Sublist.slnil, by simp [h]⟩

theorem Adds.addMember (h : Adds names doc c.doc) (name : String) (v : Value) :
    Adds (names ++ [name]) doc (c.addMember name v).doc := by
  obtain ⟨added, hsub, hnames⟩ := h
  refine ⟨added ++ [name], hsub.append (List.Sublist.refl _), ?_⟩
  simp [PrfCommonJson.addMember, hnames]

theorem Adds.ite (h : Adds names doc c.doc) (q : Prop) [Decidable q] (name : String) (v : Value) :
    Adds (names ++ [name]) doc (if q then c.addMember name v else c).doc := by
  split
  · exact h.addMember name v
  · obtain ⟨added, hsub, hnames⟩ := h
    exact ⟨added, hsub.trans (List.sublist_append_left names [name]), hnames⟩

theorem Adds.put (h : Adds names doc c.doc) (name : String) (k : Kept String) :
    Adds (names ++ [name]) doc (c.put name k).doc :=
  h.ite (k.has = true) name (.string (cString k.value))

/-- A choice between texts adds nothing. -/
theorem Adds.choice {c' : PrfCommonJson} (h : Adds names doc c.doc) (q : Prop) [Decidable q]
    (hdoc : c'.doc = c.doc) : Adds names doc (if q then c else c').doc := by
  split
  · exact h
  · rwa [hdoc]

theorem Adds.prio1 (h : Adds names doc c.doc) (tx : Transaction) :
    Adds (names ++ ["ctype"] ++ ["type"] ++ ["msgid"] ++ ["timeout"] ++ ["nadr"]) doc
      (c.addResponseJsonPrio1Params tx).doc := by
  unfold PrfCommonJson.addResponseJsonPrio1Params
  apply Adds.put
  refine Adds.choice ?_ _ rfl
  apply Adds.ite
  exact ((h.put _ _).put _ _).put _ _

theorem Adds.prio2 (h : Adds names doc c.doc) (tx : Transaction) :
    Adds (names ++ ["cmd"] ++ ["hwpid"]) doc (c.addResponseJsonPrio2Params tx).doc := by
  unfold PrfCommonJson.addResponseJsonPrio2Params
  apply Adds.put
  refine Adds.choice ?_ _ rfl
  apply Adds.put
  exact h.choice _ rfl

theorem Adds.answer (h : Adds names doc c.doc) (p : Printers) (tx : Transaction) :
    Adds (names ++ ["rcode"] ++ ["dpaval"] ++ ["rdata"]) doc (c.addAnswer p tx).doc := by
  unfold PrfCommonJson.addAnswer
  apply Adds.put
  apply Adds.put
  apply Adds.put
  exact h

theorem Adds.messages (h : Adds names doc c.doc) (p : Printers) (request : DpaMessage)
    (tx : Transaction) :
    Adds (names ++ ["request"] ++ ["request_ts"] ++ ["confirmation"] ++ ["confirmation_ts"] ++
      ["response"] ++ ["response_ts"]) doc (c.addMessages p request tx).doc := by
  unfold PrfCommonJson.addMessages
  apply Adds.put
  apply Adds.put
  apply Adds.put
  apply Adds.put
  apply Adds.put
  apply Adds.put
  exact h

end Adds

/-- An encoding adds distinct members to the document, then the status, and keeps it. -/
structure Closes (doc : List (String × Value))
    (encoded : PrfCommonJson × List (String × Value)) : Prop where
  kept : encoded.1.doc = encoded.2
  names : ∃ added : List String, added.Nodup ∧ "status" ∉ added ∧
    encoded.2.map Prod.fst = doc.map Prod.fst ++ added ++ ["status"]

theorem Adds.closes {names : List String} {doc : List (String × Value)} {c : PrfCommonJson}
    (h : Adds names doc c.doc) (p : Printers) (request : DpaMessage) (tx : Transaction)
    (hnodup : (names ++ ["rcode"] ++ ["dpaval"] ++ ["rdata"] ++ ["request"] ++ ["request_ts"] ++
      ["confirmation"] ++ ["confirmation_ts"] ++ ["response"] ++ ["response_ts"] ++
        ["status"]).Nodup) :
    Closes doc (c.encodeResponseJsonFinal p request tx) := by
  obtain ⟨added, hsub, hnames⟩ := (h.answer p tx).messages p request tx
  obtain ⟨hdistinct, -, hstatus⟩ := List.nodup_append.mp hnodup
  refine ⟨rfl, added, hdistinct.sublist hsub, ?_, ?_⟩
  · intro hmem
    exact hstatus "status" (hsub.subset hmem) "status" (by simp) rfl
  · change (_ ++ [("status", _)]).map Prod.fst = _
    rw [List.map_append, hnames]
    rfl

theorem PrfRawJson.closes (p : Printers) (c : PrfCommonJson) (request : DpaMessage)
    (tx : Transaction) : Closes c.doc (PrfRawJson.encodeResponse p c request tx) := by
  unfold PrfRawJson.encodeResponse
  apply Adds.closes
  · apply Adds.prio2
    apply Adds.prio1
    apply Adds.start
    split <;> rfl
  · decide

theorem PrfRawHdpJson.closes (p : Printers) (c : PrfCommonJson) (request : DpaMessage)
    (tx : Transaction) : Closes c.doc (PrfRawHdpJson.encodeResponse p c request tx) := by
  unfold PrfRawHdpJson.encodeResponse
  apply Adds.closes
  · apply Adds.prio2
    dsimp only
    apply Adds.addMember
    apply Adds.addMember
    dsimp only
    apply Adds.prio1
    exact Adds.start rfl
  · decide

theorem PrfThermometerJson.closes (p : Printers) (c : PrfCommonJson) (request : DpaMessage)
    (tx : Transaction) : Closes c.doc (PrfThermometerJson.encodeResponse p c request tx) := by
  unfold PrfThermometerJson.encodeResponse
  apply Adds.closes
  · dsimp only
    apply Adds.addMember
    apply Adds.prio2
    apply Adds.prio1
    exact Adds.start rfl
  · decide

theorem PrfLedJson.closes (p : Printers) (c : PrfCommonJson) (request : DpaMessage)
    (tx : Transaction) : Closes c.doc (PrfLedJson.encodeResponse p c request tx) := by
  unfold PrfLedJson.encodeResponse
  apply Adds.closes
  · dsimp only
    apply Adds.ite
    apply Adds.prio2
    apply Adds.prio1
    exact Adds.start rfl
  · decide

/-! ## Built objects -/

variable {lib : DpaLibrary} {val : Value}

/-- A request leaves the document and the data of the response empty. -/
theorem parseRequestJson_fresh {dpaTask : DpaTask lib.Rest}
    {built : PrfCommonJson × DpaTask lib.Rest}
    (h : parseRequestJson lib val dpaTask = .ok built) :
    built.1.doc = [] ∧ built.1.rdataJ = ⟨false, ""⟩ := by
  unfold parseRequestJson at h
  repeat obtain ⟨_, -, h⟩ := exists_ok_of_bind h
  -- the three setters that a member decides on
  dsimp only at h
  split at h <;> obtain ⟨_, -, h⟩ := exists_ok_of_bind h
  all_goals split at h <;> obtain ⟨_, -, h⟩ := exists_ok_of_bind h
  all_goals split at h <;> obtain ⟨_, -, h⟩ := exists_ok_of_bind h
  all_goals
    cases h
    exact ⟨rfl, rfl⟩

/-- What the encodings need to know of a built object. -/
structure Encodes (o : JsonTask lib) : Prop where
  doc : o.common.doc = []
  closes : ∀ p other c request tx, Closes c.doc (encodeWith p other o.kind c request tx)

theorem BuiltFrom.encodes {o : JsonTask lib} (h : BuiltFrom lib val o) : Encodes o := by
  cases h with
  | raw built =>
    obtain ⟨⟨common, task⟩, hparsed, built⟩ := exists_ok_of_bind built
    dsimp only at built
    split at built
    · cases built
    · obtain ⟨bytes, -, built⟩ := exists_ok_of_bind built
      cases built
      exact ⟨(parseRequestJson_fresh hparsed).1, fun p _ ↦ PrfRawJson.closes p⟩
  | rawHdp built =>
    obtain ⟨⟨common, task⟩, hparsed, built⟩ := exists_ok_of_bind built
    repeat obtain ⟨_, -, built⟩ := exists_ok_of_bind built
    cases built
    exact ⟨(parseRequestJson_fresh hparsed).1, fun p _ ↦ PrfRawHdpJson.closes p⟩
  | thermometer built =>
    obtain ⟨⟨common, task⟩, hparsed, built⟩ := exists_ok_of_bind built
    cases built
    exact ⟨(parseRequestJson_fresh hparsed).1, fun p _ ↦ PrfThermometerJson.closes p⟩
  | ledG built =>
    obtain ⟨⟨common, task⟩, hparsed, built⟩ := exists_ok_of_bind built
    cases built
    exact ⟨(parseRequestJson_fresh hparsed).1, fun p _ ↦ PrfLedJson.closes p⟩
  | ledR built =>
    obtain ⟨⟨common, task⟩, hparsed, built⟩ := exists_ok_of_bind built
    cases built
    exact ⟨(parseRequestJson_fresh hparsed).1, fun p _ ↦ PrfLedJson.closes p⟩

/-- The names of a document that was empty are distinct. -/
theorem Closes.nodup {encoded : PrfCommonJson × List (String × Value)} (h : Closes [] encoded) :
    (encoded.2.map Prod.fst).Nodup := by
  obtain ⟨added, hdistinct, hstatus, hnames⟩ := h.names
  rw [hnames, List.map_nil, List.nil_append]
  refine List.nodup_append.mpr ⟨hdistinct, List.nodup_singleton _, ?_⟩
  intro name hname status hmem
  rw [List.mem_singleton.mp hmem]
  rintro rfl
  exact hstatus hname

theorem Encodes.first {o : JsonTask lib} (h : Encodes o) (p : Printers) (other : OtherEncoders)
    (tx : Transaction) : ((encodeResponse p other o tx).2.map Prod.fst).Nodup :=
  Closes.nodup (h.doc ▸ h.closes p other o.common o.task.request tx)

/-- The document of a second response holds that of the first. -/
theorem Encodes.second {o : JsonTask lib} (h : Encodes o) (p : Printers) (other : OtherEncoders)
    (tx tx' : Transaction) :
    ¬((encodeResponse p other (encodeResponse p other o tx).1 tx').2.map Prod.fst).Nodup := by
  have hfirst := h.closes p other o.common o.task.request tx
  have hsecond := h.closes p other (encodeResponse p other o tx).1.common o.task.request tx'
  obtain ⟨added, -, -, hnames⟩ := hfirst.names
  obtain ⟨added', -, -, hnames'⟩ := hsecond.names
  have hkept : (encodeResponse p other o tx).1.common.doc.map Prod.fst =
      o.common.doc.map Prod.fst ++ added ++ ["status"] := by
    rw [← hnames, ← hfirst.kept]
    rfl
  change ¬((encodeWith p other o.kind _ o.task.request tx').2.map Prod.fst).Nodup
  rw [hnames', hkept]
  intro hdistinct
  exact (List.nodup_append.mp hdistinct).2.2 "status" (by simp) "status" (by simp) rfl

/-- The replies of an object are independent as long as it encodes only one. -/
theorem replies_independent_iff (p : Printers) (other : OtherEncoders) {o : JsonTask lib}
    (built : BuiltFrom lib val o) (txs : List Transaction) :
    Independent p other o txs ↔ txs.length ≤ 1 := by
  have h := built.encodes
  match txs with
  | [] => exact ⟨fun _ ↦ Nat.zero_le 1, fun _ ↦ List.Forall₂.nil⟩
  | [tx] =>
    refine ⟨fun _ ↦ Nat.le_refl 1, fun _ ↦ ?_⟩
    exact .cons ⟨h.first p other tx, rfl⟩ .nil
  | tx :: tx' :: txs =>
    constructor
    · rintro (_ | ⟨-, (_ | ⟨⟨hdistinct, -⟩, -⟩)⟩)
      exact absurd hdistinct (h.second p other tx tx')
    · intro hlength
      simp at hlength

/-- Two digits and a blank for each byte, and a clock that stands still. -/
def plainPrinters : Printers where
  tracerHexString bytes := String.join (bytes.map fun b ↦ encodeHexaNum 2 b.toNat ++ " ")
  strftime _ := "1970-01-01T00:00:00"

/-- Encoders that add nothing. -/
def plainEncoders : OtherEncoders := fun _ c _ _ ↦ (c, c.doc)

def ledRequest : Value :=
  .object [("ctype", .string "dpa"), ("type", .string "ledr"), ("cmd", .string "pulse")]

def ledTask : JsonTask plainLibrary where
  kind := .ledR
  common := { ctype := ⟨true, "dpa"⟩, type := ⟨true, "ledr"⟩, cmdJ := ⟨true, "pulse"⟩ }
  task := plainLibrary.prfLedR

theorem ledTask_built : BuiltFrom plainLibrary ledRequest ledTask := .ledR rfl

/-- A request without an answer. -/
def unanswered : Transaction where
  response := ⟨fun _ ↦ 0, 0⟩
  confirmation := ⟨fun _ ↦ 0, 0⟩
  requestTs := 0
  confirmationTs := 0
  responseTs := 0
  temperature := ""
  ledState := -1
  errStr := "ERROR_TIMEOUT"

theorem replies_independent_ledr :
    Independent plainPrinters plainEncoders ledTask [unanswered, unanswered] ↔
      [unanswered, unanswered].length ≤ 1 :=
  replies_independent_iff plainPrinters plainEncoders ledTask_built [unanswered, unanswered]

/-- A led asked twice without an answer: the second reply names its members twice. -/
theorem replies_repeat_members :
    BuiltFrom plainLibrary ledRequest ledTask ∧
      ¬Independent plainPrinters plainEncoders ledTask [unanswered, unanswered] := by
  refine ⟨ledTask_built, ?_⟩
  rintro (_ | ⟨-, (_ | ⟨⟨hdistinct, -⟩, -⟩)⟩)
  exact absurd hdistinct (ledTask_built.encodes.second plainPrinters plainEncoders _ _)

end IqrfDaemon.Serializer
