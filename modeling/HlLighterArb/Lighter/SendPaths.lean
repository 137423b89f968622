import HlLighterArb.Lib.FormEncoding
import HlLighterArb.Lib.JsonParser
import HlLighterArb.Ws.LighterSendTx

/-!
# HlLighterArb.Lighter.SendPaths

The two ways of `send_signed_tx`. With a transport, the transaction goes out in a frame, its JSON
pasted in as it is; without one, in the body of an HTTP request, where every byte of it is encoded
on its own.

* `urlEncode`: the encoding of the source; `urlEncode_eq`: it is the one of forms.
* `readTx`: the transaction that the exchange reads, in a frame or in a form.
* `send_paths_agree`: it is the one that was signed, either way.
-/

namespace Arb

open JsonText (Json)
open JsonString (Literal)
open CompactJson (PlainStr)

/-! ## Sending -/

def utf8 (text : String) : List UInt8 := text.toByteArray.data.toList

def urlEncodeByte (ch : UInt8) : List Char :=
  if ('a'.toNat ≤ ch.toNat ∧ ch.toNat ≤ 'z'.toNat) ∨ ('A'.toNat ≤ ch.toNat ∧ ch.toNat ≤ 'Z'.toNat) ∨
      ('0'.toNat ≤ ch.toNat ∧ ch.toNat ≤ '9'.toNat) ∨ ch.toNat = '-'.toNat ∨ ch.toNat = '_'.toNat ∨
      ch.toNat = '.'.toNat ∨ ch.toNat = '~'.toNat then [Char.ofNat ch.toNat]
  else '%' :: ((Nat.toDigits 16 ch.toNat).map Char.toUpper).leftpad 2 '0'

def urlEncode (value : String) : String :=
  String.ofList ((utf8 value).flatMap urlEncodeByte)

/-- What leaves the process for a transaction. -/
inductive SentTx where
  | frame (text : String)
  | form (body : String)

def sendSignedTx (hasTransport : Bool) (txType : UInt8) (txInfo : String) : SentTx :=
  if hasTransport then .frame (SendTxRequest.text { txType, txInfo })
  else .form ("tx_type=" ++ toString txType.toNat ++ "&tx_info=" ++ urlEncode txInfo)

/-! ## The exchange -/

structure ApiTx where
  txType : Nat
  txInfo : Json

def readFrame (text : String) : Option ApiTx := do
  let doc ← JsonText.parse text.toList
  let kind ← doc.get "type"
  if kind.text ≠ "\"jsonapi/sendtx\"".toList then none
  else
    let data ← doc.get "data"
    let txType ← (data.get "tx_type").bind Json.natural
    let txInfo ← data.get "tx_info"
    some { txType, txInfo }

/-- The JSON in some bytes. -/
def readBytes (bytes : List UInt8) : Option Json :=
  (ByteArray.mk bytes.toArray).utf8Decode?.bind fun cs => JsonText.parse cs.toList

def readForm (body : String) : Option ApiTx := do
  let form ← FormEncoding.parseForm body.toList
  let txType ← ((form.lookup "tx_type".toList).bind readBytes).bind Json.natural
  let txInfo ← (form.lookup "tx_info".toList).bind readBytes
  some { txType, txInfo }

def readTx : SentTx → Option ApiTx
  | .frame text => readFrame text
  | .form body => readForm body

/-! ## The frame -/

def txDoc (txType : UInt8) (txInfo : Json) : Json :=
  .object [(.ofText "type", .string (.ofText "jsonapi/sendtx")),
    (.ofText "data", .object [(.ofText "tx_type", .number { whole := txType.toNat }),
      (.ofText "tx_info", txInfo)])]

theorem frame_doc (txType : UInt8) (txInfo : Json) :
    (SendTxRequest.text { txType, txInfo := String.ofList txInfo.text }).toList =
      (txDoc txType txInfo).text := by
  have hnames : PlainStr "type" ∧ PlainStr "jsonapi/sendtx" ∧ PlainStr "data" ∧
      PlainStr "tx_type" ∧ PlainStr "tx_info" := by decide +kernel
  obtain ⟨htype, hkind, hdata, htxType, htxInfo⟩ := hnames
  have hnumber : (toString txType.toNat).toList = Nat.toDigits 10 txType.toNat := Nat.toList_repr
  unfold SendTxRequest.text txDoc
  simp only [String.toList_append, String.toList_ofList, hnumber, JsonText.Json.text,
    JsonText.fieldTexts, JsonText.fieldText, JsonText.natural_text, JsonText.ofText_plain, htype,
    hkind, hdata, htxType, htxInfo]
  simp [CompactJson.renderStr]

theorem readFrame_doc (txType : UInt8) (txInfo : Json) :
    readFrame (SendTxRequest.text { txType, txInfo := String.ofList txInfo.text }) =
      some { txType := txType.toNat, txInfo } := by
  have hkind : (txDoc txType txInfo).get "type" = some (.string (.ofText "jsonapi/sendtx")) :=
    Json.get_self (by decide) ..
  have hdata : (txDoc txType txInfo).get "data" =
      some (.object [(.ofText "tx_type", .number { whole := txType.toNat }),
        (.ofText "tx_info", txInfo)]) := by
    rw [txDoc, Json.get_other (by decide), Json.get_self (by decide)]
  have htxType : (Json.object [(.ofText "tx_type", .number { whole := txType.toNat }),
      (.ofText "tx_info", txInfo)]).get "tx_type" = some (.number { whole := txType.toNat }) :=
    Json.get_self (by decide) ..
  have htxInfo : (Json.object [(.ofText "tx_type", .number { whole := txType.toNat }),
      (.ofText "tx_info", txInfo)]).get "tx_info" = some txInfo := by
    rw [Json.get_other (by decide), Json.get_self (by decide)]
  have htext : (Json.string (.ofText "jsonapi/sendtx")).text = "\"jsonapi/sendtx\"".toList := by
    decide +kernel
  simp only [readFrame, frame_doc, JsonText.parse_text, hkind, hdata, htxType, htxInfo, htext,
    Option.bind_eq_bind, Option.bind_some, Json.natural, ne_eq, not_true_eq_false, if_false]

/-! ## The form -/

/-- The source writes each byte as forms do. -/
theorem urlEncodeByte_eq (b : UInt8) : urlEncodeByte b = FormEncoding.encodeByte b := by
  have hall : ∀ n < 256, urlEncodeByte (UInt8.ofNat n) = FormEncoding.encodeByte (UInt8.ofNat n) := by
    decide +kernel
  have h := hall b.toNat b.toNat_lt
  rwa [UInt8.ofNat_toNat] at h

theorem urlEncode_eq (text : String) :
    (urlEncode text).toList = FormEncoding.encode (utf8 text) := by
  rw [urlEncode, String.toList_ofList, FormEncoding.encode]
  exact List.flatMap_congr fun b _ => urlEncodeByte_eq b

/-- A text is read from its bytes. -/
theorem readBytes_utf8 (v : Json) : readBytes (utf8 (String.ofList v.text)) = some v := by
  have hbytes : ByteArray.mk (utf8 (String.ofList v.text)).toArray = v.text.utf8Encode := by
    rw [utf8, Array.toArray_toList, String.toByteArray_ofList]
  rw [readBytes, hbytes, List.utf8Decode?_utf8Encode, Option.bind_some]
  exact JsonText.parse_text v

theorem utf8_cons (c : Char) (cs : List Char) :
    utf8 (String.ofList (c :: cs)) = String.utf8EncodeChar c ++ utf8 (String.ofList cs) := by
  simp [utf8, List.utf8Encode]

theorem encode_digit {c : Char} (h : c.isDigit = true) :
    FormEncoding.encode (String.utf8EncodeChar c) = [c] := by
  have hall : ∀ n < 58, 48 ≤ n →
      FormEncoding.encode (String.utf8EncodeChar (Char.ofNat n)) = [Char.ofNat n] := by
    decide +kernel
  obtain ⟨hlow, hhigh⟩ := Char.isDigit_iff_toNat.mp h
  have hdigit := hall c.toNat (Nat.lt_succ_of_le hhigh) hlow
  rwa [Char.ofNat_toNat] at hdigit

/-- Digits are written as they are. -/
theorem encode_digits {ds : List Char} (h : ∀ c ∈ ds, c.isDigit = true) :
    FormEncoding.encode (utf8 (String.ofList ds)) = ds := by
  induction ds with
  | nil => rfl
  | cons d ds ih =>
    obtain ⟨hd, hds⟩ := List.forall_mem_cons.mp h
    have hsplit : ∀ s t : List UInt8, FormEncoding.encode (s ++ t) =
        FormEncoding.encode s ++ FormEncoding.encode t := fun _ _ => List.flatMap_append
    rw [utf8_cons, hsplit, encode_digit hd, ih hds, List.singleton_append]

/-- The body is a form of two fields. -/
theorem body_form (txType : UInt8) (txInfo : String) :
    ("tx_type=" ++ toString txType.toNat ++ "&tx_info=" ++ urlEncode txInfo).toList =
      FormEncoding.renderForm
        [("tx_type".toList, utf8 (String.ofList (Nat.toDigits 10 txType.toNat))),
          ("tx_info".toList, utf8 txInfo)] := by
  have hdigits : ∀ c ∈ Nat.toDigits 10 txType.toNat, c.isDigit = true :=
    fun c hc => Nat.isDigit_of_mem_toDigits (by decide) (by decide) hc
  have hnumber : (toString txType.toNat).toList = Nat.toDigits 10 txType.toNat := Nat.toList_repr
  simp only [String.toList_append, hnumber, urlEncode_eq]
  simp [FormEncoding.renderForm, FormEncoding.renderField, encode_digits hdigits]

theorem readForm_body (txType : UInt8) (txInfo : Json) :
    readForm ("tx_type=" ++ toString txType.toNat ++ "&tx_info=" ++
      urlEncode (String.ofList txInfo.text)) = some { txType := txType.toNat, txInfo } := by
  have hparse : FormEncoding.parseForm (FormEncoding.renderForm
      [("tx_type".toList, utf8 (String.ofList (Nat.toDigits 10 txType.toNat))),
        ("tx_info".toList, utf8 (String.ofList txInfo.text))]) =
      some [("tx_type".toList, utf8 (String.ofList (Nat.toDigits 10 txType.toNat))),
        ("tx_info".toList, utf8 (String.ofList txInfo.text))] :=
    FormEncoding.parse_render (List.cons_ne_nil _ _) (by simp [FormEncoding.PlainName])
  have hnumber := readBytes_utf8 (.number { whole := txType.toNat })
  rw [JsonText.Json.text, JsonText.natural_text] at hnumber
  have hother : ("tx_info".toList == "tx_type".toList) = false := by decide
  simp only [readForm, body_form, hparse, Option.bind_eq_bind, Option.bind_some,
    List.lookup_cons, BEq.rfl, hother, hnumber, readBytes_utf8, Json.natural]

/-- Whichever way a transaction goes out, the exchange reads its type and the JSON that was
signed. -/
theorem send_paths_agree (hasTransport : Bool) (txType : UInt8) (txInfo : Json) :
    readTx (sendSignedTx hasTransport txType (String.ofList txInfo.text)) =
      some { txType := txType.toNat, txInfo } := by
  cases hasTransport with
  | true => exact readFrame_doc txType txInfo
  | false => exact readForm_body txType txInfo

end Arb
