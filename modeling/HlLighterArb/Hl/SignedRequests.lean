import HlLighterArb.Hl.HexBytes
import HlLighterArb.Hl.Keccak
import HlLighterArb.Lib.JsonParser
import HlLighterArb.Lib.TypedData
import HlLighterArb.Ws.HlWsPost

/-!
# HlLighterArb.Hl.SignedRequests

The signed requests of `NativeHyperliquidTrading`, from the hash of an action to the frame on the
socket, and what the exchange makes of one. `sign_l1_action` signs a digest that it builds by hand
in buffers; the exchange builds it from the request it reads, as EIP-712 says, and recovers the
signer from both.

* `l1Digest`: the digest of the source; `postedBody`: the body a call posts.
* `readRequest`: a frame as the exchange reads it; `ExchangeRequest.digest`: what it recovers from.
* `posted_is_signed`: the digest of the request that is read is the one that was signed.
* `digest_authorises_one`: two calls with one digest have one action, nonce and vault address, or
  make `keccak256` collide.
-/

namespace Arb

open JsonText (Json)
open JsonString (Literal)
open MsgPack (Value strBytes)
open CompactJson (PlainStr)
open TypedData (Collides hashStruct digest structData digestData)

/-! ## Signing -/

def uint256Word (value : Nat) : ByteBuffer :=
  List.replicate 24 0 ++ bytesAt value [56, 48, 40, 32, 24, 16, 8, 0]

def addressWord : ByteBuffer := List.replicate 32 0

def domainType : String :=
  "EIP712Domain(string name,string version,uint256 chainId,address verifyingContract)"

def agentType : String := "Agent(string source,bytes32 connectionId)"

section Digest

variable (wide : WideShift)

def domainSeparator : ByteBuffer :=
  let domainTypehash := keccak256 wide (strBytes domainType)
  let nameHash := keccak256 wide (strBytes "Exchange")
  let versionHash := keccak256 wide (strBytes "1")
  keccak256 wide (domainTypehash ++ nameHash ++ versionHash ++ uint256Word 1337 ++ addressWord)

def messageHash (actionHash : ByteBuffer) : ByteBuffer :=
  let agentTypehash := keccak256 wide (strBytes agentType)
  let sourceHash := keccak256 wide (strBytes "a")
  keccak256 wide (agentTypehash ++ sourceHash ++ actionHash)

/-- The digest that `sign_l1_action` signs. -/
def l1Digest (actionHash : ByteBuffer) : ByteBuffer :=
  keccak256 wide ([0x19, 0x01] ++ domainSeparator wide ++ messageHash wide actionHash)

end Digest

/-- A recoverable signature as `secp256k1` serializes it: 64 bytes and the recovery id. -/
structure EcdsaSignature where
  compact : ByteBuffer
  recid : Fin 4
  size : compact.length = 64

/-- `none` where it throws. -/
def signL1Action (wide : WideShift) (ecdsaSign : ByteBuffer → ByteBuffer → Option EcdsaSignature)
    (privateKey : String) (actionHash : ByteBuffer) : Option String := do
  let priv ← hexToBytes privateKey
  if priv.length ≠ 32 then none
  else
    let sig ← ecdsaSign (l1Digest wide actionHash) priv
    some ("\x7b\"r\":\"" ++ bytesToHex sig.compact 32 true ++
      "\",\"s\":\"" ++ bytesToHex (sig.compact.drop 32) 32 true ++
      "\",\"v\":" ++ toString (27 + sig.recid.val) ++ "\x7d")

namespace NativeHyperliquidTrading

variable (t : NativeHyperliquidTrading) (wide : WideShift)
  (ecdsaSign : ByteBuffer → ByteBuffer → Option EcdsaSignature) (privateKey : String)

/-- What `post_exchange_action` hands to the transport. -/
def exchangeBody (actionJson : String) (actionHash : ByteBuffer) (nonce : UInt64) :
    Option String := do
  let signature ← signL1Action wide ecdsaSign privateKey actionHash
  let vaultPart := match t.vaultAddress with
    | some address => "\"" ++ address ++ "\""
    | none => "null"
  some ("\x7b\"action\":" ++ actionJson ++ ",\"nonce\":" ++ toString nonce.toNat ++
    ",\"signature\":" ++ signature ++ ",\"vaultAddress\":" ++ vaultPart ++
    ",\"expiresAfter\":null\x7d")

/-- The body that a call posts. -/
def postedBody (nonce : UInt64) (call : ActionCall) : Option String := do
  let actionJson ← t.actionJson call
  let hash ← t.actionHash (keccak256 wide) nonce call
  t.exchangeBody wide ecdsaSign privateKey actionJson hash nonce

end NativeHyperliquidTrading

/-! ## The exchange -/

/-- What the exchange reads from a request. -/
structure ExchangeRequest where
  action : Value
  nonce : UInt64
  vault : Option ByteBuffer
  r : ByteBuffer
  s : ByteBuffer
  v : Nat

def readHex : Json → Option ByteBuffer
  | .string l => hexToBytes (String.ofList l.chars)
  | _ => none

def readVault : Json → Option (Option ByteBuffer)
  | .word .null => some none
  | v => (readHex v).map some

def readPayload (payload : Json) : Option ExchangeRequest := do
  let actionText ← payload.get "action"
  let action ← CompactJson.parse (String.ofList actionText.text)
  let nonce ← (payload.get "nonce").bind Json.natural
  let signature ← payload.get "signature"
  let r ← (signature.get "r").bind readHex
  let s ← (signature.get "s").bind readHex
  let v ← (signature.get "v").bind Json.natural
  let vault ← (payload.get "vaultAddress").bind readVault
  some { action, nonce := UInt64.ofNat nonce, vault, r, s, v }

/-- The request in a frame. -/
def readRequest (frame : String) : Option ExchangeRequest := do
  let doc ← JsonText.parse frame.toList
  let request ← doc.get "request"
  let payload ← request.get "payload"
  readPayload payload

/-- What is hashed for an action of an agent. -/
def agentFields (wide : WideShift) (actionHash : ByteBuffer) : List ByteBuffer :=
  [keccak256 wide (strBytes "a"), actionHash]

/-- The digest of a request, as EIP-712 defines it. -/
def ExchangeRequest.digest (wide : WideShift) (q : ExchangeRequest) : ByteBuffer :=
  TypedData.digest (keccak256 wide)
    (hashStruct (keccak256 wide) (strBytes domainType)
      [keccak256 wide (strBytes "Exchange"), keccak256 wide (strBytes "1"), uint256Word 1337,
        addressWord])
    (hashStruct (keccak256 wide) (strBytes agentType)
      (agentFields wide (keccak256 wide (q.action.encode ++ trailer q.nonce q.vault))))

/-! ## The digest -/

section Digest

variable {wide : WideShift}

theorem keccak256_length (data : ByteBuffer) : (keccak256 wide data).length = 32 := by
  simp [keccak256]

theorem messageHash_eq (actionHash : ByteBuffer) : messageHash wide actionHash =
    hashStruct (keccak256 wide) (strBytes agentType) (agentFields wide actionHash) := by
  simp [messageHash, hashStruct, structData, agentFields]

theorem domainSeparator_eq : domainSeparator wide =
    hashStruct (keccak256 wide) (strBytes domainType)
      [keccak256 wide (strBytes "Exchange"), keccak256 wide (strBytes "1"), uint256Word 1337,
        addressWord] := by
  simp [domainSeparator, hashStruct, structData]

theorem l1Digest_eq (actionHash : ByteBuffer) : l1Digest wide actionHash =
    digest (keccak256 wide) (domainSeparator wide)
      (hashStruct (keccak256 wide) (strBytes agentType) (agentFields wide actionHash)) := by
  rw [← messageHash_eq]
  rfl

end Digest

/-! ## The texts -/

section Texts

variable {bytes : ByteBuffer}

/-- Hexadecimal digits, and the mark of a prefix. -/
theorem HexDigits.plain {digits : List Char} (h : HexDigits digits bytes) :
    ∀ c ∈ digits, CompactJson.plain c = true := by
  have hdigit : ∀ {c : Char} {v : Nat}, Text.digitValue 16 c = some v →
      CompactJson.plain c = true := by
    intro c v hc
    have hlow : 48 ≤ c.toNat := by
      by_contra hlt
      rw [digitValue_of_low (by omega)] at hc
      cases hc
    have hquote : c ≠ '"' := by rintro rfl; cases hc
    have hbackslash : c ≠ '\\' := by rintro rfl; cases hc
    have hspace : ' ' ≤ c := by
      have : 32 ≤ c.toNat := by omega
      exact this
    simp [CompactJson.plain, hquote, hbackslash, hspace]
  induction digits, bytes using HexDigits.induct with
  | case1 => simp
  | case2 c d cs b bs ih =>
    obtain ⟨hc, hd, hrest⟩ := h
    simp only [List.forall_mem_cons]
    exact ⟨hdigit hc, hdigit hd, ih hrest⟩
  | case3 => simp_all [HexDigits]

/-- A text of hexadecimal digits needs no escapes. -/
theorem HexText.plain {text : String} (h : HexText text bytes) : PlainStr text := by
  obtain ⟨digits, hdigits, htext⟩ := h
  unfold CompactJson.PlainStr
  rcases htext with heq | heq | heq <;> rw [heq]
  · exact hdigits.plain
  · simpa [CompactJson.plain] using hdigits.plain
  · simpa [CompactJson.plain] using hdigits.plain

/-- As a string it is read as the bytes. -/
theorem HexText.read {text : String} (h : HexText text bytes) :
    readHex (.string (.ofText text)) = some bytes := by
  have hchars : (Literal.ofText text).chars = text.toList := JsonText.escape_plain h.plain
  obtain ⟨digits, hdigits, htext⟩ := h
  rw [readHex, hchars, String.ofList_toList]
  exact hexToBytes_digits hdigits htext

theorem hexText_bytesToHex (bytes : ByteBuffer) :
    HexText (bytesToHex bytes bytes.length true) bytes :=
  ⟨_, hexDigits_bytes bytes, .inr (.inl (by simp [bytesToHex]))⟩

/-- Only the bytes that are asked for are written. -/
theorem bytesToHex_take (bytes : ByteBuffer) (n : Nat) (withPrefix : Bool) :
    bytesToHex (bytes.take n) n withPrefix = bytesToHex bytes n withPrefix := by
  have hsame : ∀ i ∈ List.range n, (bytes.take n).getD i 0 = bytes.getD i 0 := by
    intro i hi
    simp [List.getD_eq_getElem?_getD, List.mem_range.mp hi]
  simp only [bytesToHex]
  congr 2
  exact List.flatMap_congr fun i hi => by rw [hsame i hi]

/-- The halves of a signature are read from their texts. -/
theorem EcdsaSignature.hexText (sig : EcdsaSignature) :
    HexText (bytesToHex sig.compact 32 true) (sig.compact.take 32) ∧
      HexText (bytesToHex (sig.compact.drop 32) 32 true) (sig.compact.drop 32) := by
  have hsize := sig.size
  have hr := hexText_bytesToHex (sig.compact.take 32)
  have hs := hexText_bytesToHex (sig.compact.drop 32)
  rw [show (sig.compact.take 32).length = 32 by simp [hsize], bytesToHex_take] at hr
  rw [show (sig.compact.drop 32).length = 32 by simp [hsize]] at hs
  exact ⟨hr, hs⟩

end Texts

/-! ## The documents behind the texts -/

def signatureDoc (sig : EcdsaSignature) : Json :=
  .object [(.ofText "r", .string (.ofText (bytesToHex sig.compact 32 true))),
    (.ofText "s", .string (.ofText (bytesToHex (sig.compact.drop 32) 32 true))),
    (.ofText "v", .number { whole := 27 + sig.recid.val })]

def vaultDoc : Option String → Json
  | some address => .string (.ofText address)
  | none => .word .null

def payloadDoc (action : Value) (nonce : UInt64) (sig : EcdsaSignature)
    (vaultAddress : Option String) : Json :=
  .object [(.ofText "action", JsonText.ofValue action),
    (.ofText "nonce", .number { whole := nonce.toNat }), (.ofText "signature", signatureDoc sig),
    (.ofText "vaultAddress", vaultDoc vaultAddress), (.ofText "expiresAfter", .word .null)]

def frameDoc (id : Nat) (payload : Json) : Json :=
  .object [(.ofText "method", .string (.ofText "post")), (.ofText "id", .number { whole := id }),
    (.ofText "request", .object [(.ofText "type", .string (.ofText "action")),
      (.ofText "payload", payload)])]

theorem toList_toString (n : Nat) : (toString n).toList = Nat.toDigits 10 n :=
  Nat.toList_repr

theorem frame_text {id : Nat} {body : String} {payload : Json} (h : body.toList = payload.text) :
    (PostRequest.text { id, payload := body }).toList = (frameDoc id payload).text := by
  have hnames : PlainStr "method" ∧ PlainStr "post" ∧ PlainStr "id" ∧ PlainStr "request" ∧
      PlainStr "type" ∧ PlainStr "action" ∧ PlainStr "payload" := by decide +kernel
  obtain ⟨hmethod, hpost, hid, hrequest, htype, haction, hpayload⟩ := hnames
  unfold PostRequest.text frameDoc
  simp only [String.toList_append, h, toList_toString, JsonText.Json.text, JsonText.fieldTexts,
    JsonText.fieldText, JsonText.natural_text, JsonText.ofText_plain, hmethod, hpost, hid,
    hrequest, htype, haction, hpayload]
  simp [CompactJson.renderStr]

/-- The signature as it is written. -/
theorem signL1Action_text {wide : WideShift}
    {ecdsaSign : ByteBuffer → ByteBuffer → Option EcdsaSignature} {privateKey signature : String}
    {actionHash : ByteBuffer}
    (h : signL1Action wide ecdsaSign privateKey actionHash = some signature) :
    ∃ priv sig, hexToBytes privateKey = some priv ∧
      ecdsaSign (l1Digest wide actionHash) priv = some sig ∧
      signature.toList = (signatureDoc sig).text := by
  simp only [signL1Action, Option.bind_eq_bind, Option.bind_eq_some_iff] at h
  obtain ⟨priv, hpriv, h⟩ := h
  split_ifs at h with hsize
  rw [Option.bind_eq_some_iff] at h
  obtain ⟨sig, hsig, h⟩ := h
  refine ⟨priv, sig, hpriv, hsig, ?_⟩
  rw [← Option.some.inj h]
  have hnames : PlainStr "r" ∧ PlainStr "s" ∧ PlainStr "v" := by decide +kernel
  obtain ⟨hr, hs, hv⟩ := hnames
  have hrHex := sig.hexText.1.plain
  have hsHex := sig.hexText.2.plain
  unfold signatureDoc
  simp only [String.toList_append, toList_toString, JsonText.Json.text, JsonText.fieldTexts,
    JsonText.fieldText, JsonText.natural_text, JsonText.ofText_plain, hr, hs, hv, hrHex, hsHex]
  simp [CompactJson.renderStr]

/-- A vault address is absent or a text that needs no escapes. -/
theorem vault_text {t : NativeHyperliquidTrading} {vault : Option ByteBuffer} (h : t.Vault vault) :
    (match t.vaultAddress with
      | some address => "\"" ++ address ++ "\""
      | none => "null").toList = (vaultDoc t.vaultAddress).text ∧
    readVault (vaultDoc t.vaultAddress) = some vault := by
  cases vault with
  | none =>
    rw [show t.vaultAddress = none from h]
    exact ⟨rfl, rfl⟩
  | some bytes =>
    obtain ⟨-, text, digits, haddress, hdigits⟩ := h
    have hhex : HexText text bytes := ⟨digits, hdigits⟩
    rw [haddress]
    refine ⟨?_, ?_⟩
    · simp [vaultDoc, JsonText.Json.text, JsonText.ofText_plain hhex.plain, CompactJson.renderStr]
    · rw [vaultDoc, readVault, hhex.read]
      · rfl
      · exact fun h => Json.noConfusion h

theorem exchangeBody_text {t : NativeHyperliquidTrading} {wide : WideShift}
    {ecdsaSign : ByteBuffer → ByteBuffer → Option EcdsaSignature} {privateKey body : String}
    {actionHash : ByteBuffer} {action : Value} {vault : Option ByteBuffer} {nonce : UInt64}
    (hplain : CompactJson.Plain action) (hvault : t.Vault vault)
    (h : t.exchangeBody wide ecdsaSign privateKey (String.ofList (CompactJson.render action))
      actionHash nonce = some body) :
    ∃ priv sig, hexToBytes privateKey = some priv ∧
      ecdsaSign (l1Digest wide actionHash) priv = some sig ∧
      body.toList = (payloadDoc action nonce sig t.vaultAddress).text := by
  simp only [NativeHyperliquidTrading.exchangeBody, Option.bind_eq_bind,
    Option.bind_eq_some_iff] at h
  obtain ⟨signature, hsignature, h⟩ := h
  obtain ⟨priv, sig, hpriv, hsig, htext⟩ := signL1Action_text hsignature
  refine ⟨priv, sig, hpriv, hsig, ?_⟩
  rw [← Option.some.inj h]
  have hnames : PlainStr "action" ∧ PlainStr "nonce" ∧ PlainStr "signature" ∧
      PlainStr "vaultAddress" ∧ PlainStr "expiresAfter" := by decide +kernel
  obtain ⟨haction, hnonce, hsign, hvaultName, hexpires⟩ := hnames
  unfold payloadDoc
  simp only [String.toList_append, String.toList_ofList, (vault_text hvault).1, htext,
    toList_toString, JsonText.Json.text, JsonText.fieldTexts, JsonText.fieldText,
    JsonText.natural_text, JsonText.ofText_plain, JsonText.ofValue_text hplain, haction, hnonce,
    hsign, hvaultName, hexpires]
  simp [CompactJson.renderStr, JsonText.Word.text]

/-! ## Reading them -/

theorem readPayload_doc {action : Value} {nonce : UInt64} {sig : EcdsaSignature}
    {vaultAddress : Option String} {vault : Option ByteBuffer}
    (hplain : CompactJson.Plain action) (hvault : readVault (vaultDoc vaultAddress) = some vault) :
    readPayload (payloadDoc action nonce sig vaultAddress) =
      some { action, nonce, vault, r := sig.compact.take 32, s := sig.compact.drop 32
             v := 27 + sig.recid.val } := by
  have haction : (payloadDoc action nonce sig vaultAddress).get "action" =
      some (JsonText.ofValue action) := Json.get_self (by decide) ..
  have hnonce : (payloadDoc action nonce sig vaultAddress).get "nonce" =
      some (.number { whole := nonce.toNat }) := by
    rw [payloadDoc, Json.get_other (by decide), Json.get_self (by decide)]
  have hsignature : (payloadDoc action nonce sig vaultAddress).get "signature" =
      some (signatureDoc sig) := by
    rw [payloadDoc, Json.get_other (by decide), Json.get_other (by decide),
      Json.get_self (by decide)]
  have hvaultDoc : (payloadDoc action nonce sig vaultAddress).get "vaultAddress" =
      some (vaultDoc vaultAddress) := by
    rw [payloadDoc, Json.get_other (by decide), Json.get_other (by decide),
      Json.get_other (by decide), Json.get_self (by decide)]
  have hr : (signatureDoc sig).get "r" =
      some (.string (.ofText (bytesToHex sig.compact 32 true))) := Json.get_self (by decide) ..
  have hs : (signatureDoc sig).get "s" =
      some (.string (.ofText (bytesToHex (sig.compact.drop 32) 32 true))) := by
    rw [signatureDoc, Json.get_other (by decide), Json.get_self (by decide)]
  have hv : (signatureDoc sig).get "v" = some (.number { whole := 27 + sig.recid.val }) := by
    rw [signatureDoc, Json.get_other (by decide), Json.get_other (by decide),
      Json.get_self (by decide)]
  have hparse : CompactJson.parse (String.ofList (JsonText.ofValue action).text) = some action := by
    rw [JsonText.ofValue_text hplain]
    exact CompactJson.parse_render hplain
  simp only [readPayload, haction, hnonce, hsignature, hvaultDoc, hr, hs, hv, hparse, hvault,
    Option.bind_eq_bind, Option.bind_some, sig.hexText.1.read, sig.hexText.2.read, Json.natural,
    UInt64.ofNat_toNat]

theorem readRequest_frame {id : Nat} {body : String} {payload : Json}
    (h : body.toList = payload.text) :
    readRequest (PostRequest.text { id, payload := body }) = readPayload payload := by
  have hrequest : (frameDoc id payload).get "request" = some (.object
      [(.ofText "type", .string (.ofText "action")), (.ofText "payload", payload)]) := by
    rw [frameDoc, Json.get_other (by decide), Json.get_other (by decide), Json.get_self (by decide)]
  have hpayload : (Json.object [(.ofText "type", .string (.ofText "action")),
      (.ofText "payload", payload)]).get "payload" = some payload := by
    rw [Json.get_other (by decide), Json.get_self (by decide)]
  simp only [readRequest, frame_text h, JsonText.parse_text, hrequest, hpayload,
    Option.bind_eq_bind, Option.bind_some]

/-! ## What is signed is what the exchange checks -/

/-- A call that can be written, with a key of 32 bytes, posts a body. -/
theorem exists_postedBody {t : NativeHyperliquidTrading} {wide : WideShift}
    {ecdsaSign : ByteBuffer → ByteBuffer → Option EcdsaSignature} {privateKey : String}
    {call : ActionCall} {nonce : UInt64} {bytes priv : ByteBuffer} {sig : EcdsaSignature}
    (hbytes : t.actionBytes nonce call = some bytes) (hpriv : hexToBytes privateKey = some priv)
    (hsize : priv.length = 32)
    (hsign : ecdsaSign (l1Digest wide (keccak256 wide bytes)) priv = some sig) :
    ∃ body, t.postedBody wide ecdsaSign privateKey nonce call = some body := by
  have hhash : t.actionHash (keccak256 wide) nonce call = some (keccak256 wide bytes) := by
    rw [NativeHyperliquidTrading.actionHash_eq, hbytes, Option.map_some]
  obtain ⟨text, hjson⟩ : ∃ text, t.actionJson call = some text := by
    cases call with
    | order request entry ioc reduceOnly => exact ⟨_, rfl⟩
    | cancel coin oid =>
      simp only [NativeHyperliquidTrading.actionBytes, NativeHyperliquidTrading.cancelActionBytes,
        Option.bind_eq_bind, Option.bind_eq_some_iff] at hbytes
      obtain ⟨entry, hentry, -⟩ := hbytes
      exact ⟨_, by rw [NativeHyperliquidTrading.actionJson,
        NativeHyperliquidTrading.cancelActionJson, hentry]; rfl⟩
  simp [NativeHyperliquidTrading.postedBody, NativeHyperliquidTrading.exchangeBody, signL1Action,
    hjson, hhash, hpriv, hsize, hsign]

/-- The exchange reads a request whose digest, nonce and vault address are the ones that the key
signed, with the signature it made. -/
theorem posted_is_signed {t : NativeHyperliquidTrading} {wide : WideShift}
    {ecdsaSign : ByteBuffer → ByteBuffer → Option EcdsaSignature} {privateKey body : String}
    {call : ActionCall} {vault : Option ByteBuffer} {nonce : UInt64} (id : Nat)
    (hcall : t.InRange call) (hvault : t.Vault vault)
    (hbody : t.postedBody wide ecdsaSign privateKey nonce call = some body) :
    ∃ request priv sig, readRequest (PostRequest.text { id, payload := body }) = some request ∧
      t.actionJson call = some (String.ofList (CompactJson.render request.action)) ∧
      request.nonce = nonce ∧ request.vault = vault ∧
      hexToBytes privateKey = some priv ∧ ecdsaSign (request.digest wide) priv = some sig ∧
      request.r ++ request.s = sig.compact ∧ request.v = 27 + sig.recid.val := by
  obtain ⟨action, -, hplain, hjson, hbytes⟩ := NativeHyperliquidTrading.InRange.encodings hcall
  simp only [NativeHyperliquidTrading.postedBody, hjson, NativeHyperliquidTrading.actionHash_eq,
    hbytes nonce vault hvault, Option.map_some, Option.bind_eq_bind, Option.bind_some] at hbody
  obtain ⟨priv, sig, hpriv, hsig, htext⟩ := exchangeBody_text hplain hvault hbody
  have hread := @readPayload_doc action nonce sig _ _ hplain (vault_text hvault).2
  refine ⟨_, priv, sig, (readRequest_frame htext).trans hread, hjson, rfl, rfl, hpriv, ?_,
    List.take_append_drop .., rfl⟩
  rwa [l1Digest_eq, domainSeparator_eq] at hsig

/-! The order of the signing test, its key and the signature it expects. -/

def testCall : ActionCall := .order makerBuy { asset := 132, szDecimals := 2 } false false

def testKey : String := "0x83fee78b849ead73998d2833ea80d405c5cbd3516d7e5883461248af6e47afac"

def testSignature : EcdsaSignature where
  compact := [
    0x95, 0x78, 0x27, 0x4e, 0x30, 0x7b, 0x49, 0xd6, 0xbb, 0x45, 0xe8, 0xec, 0xc8, 0x40, 0xbc, 0xd3,
    0xfc, 0x68, 0x75, 0x07, 0xf5, 0xa4, 0x15, 0x2b, 0x9b, 0x8c, 0xce, 0x9a, 0x2b, 0x48, 0xdd, 0x36,
    0x7b, 0x45, 0x64, 0x35, 0x9d, 0x08, 0xea, 0x00, 0xe6, 0xac, 0x9b, 0xfd, 0x8a, 0x05, 0xe8, 0x9e,
    0x7c, 0x94, 0x0a, 0x43, 0xfb, 0xa3, 0xa4, 0x47, 0x46, 0x3e, 0x0c, 0x30, 0xca, 0x71, 0xdf, 0x72]
  recid := 1
  size := rfl

/-- `secp256k1`, as far as the test goes. -/
def testSign (hash digest priv : ByteBuffer) : Option EcdsaSignature :=
  if digest = l1Digest .masked hash ∧ hexToBytes testKey = some priv then some testSignature
  else none

theorem testCall_inRange : vaultTrading.InRange testCall :=
  (by decide +kernel : _ ∧ _ ∧ _)

theorem testCall_bytes :
    ∃ bytes, vaultTrading.actionBytes 1711584000000 testCall = some bytes :=
  Option.isSome_iff_exists.mp (by decide +kernel)

theorem testKey_bytes : ∃ priv, hexToBytes testKey = some priv ∧ priv.length = 32 := by
  have hsize : (hexToBytes testKey).map List.length = some 32 := by decide +kernel
  obtain ⟨priv, hpriv, hlength⟩ := Option.map_eq_some_iff.mp hsize
  exact ⟨priv, hpriv, hlength⟩

theorem testCall_body {bytes : ByteBuffer}
    (hbytes : vaultTrading.actionBytes 1711584000000 testCall = some bytes) :
    ∃ body, vaultTrading.postedBody .masked (testSign (keccak256 .masked bytes)) testKey
      1711584000000 testCall = some body := by
  obtain ⟨priv, hpriv, hsize⟩ := testKey_bytes
  have hsign : testSign (keccak256 .masked bytes) (l1Digest .masked (keccak256 .masked bytes)) priv =
      some testSignature := by rw [testSign, if_pos ⟨rfl, hpriv⟩]
  exact exists_postedBody hbytes hpriv hsize hsign

theorem posted_is_signed_test : ∃ bytes body request priv sig,
    vaultTrading.actionBytes 1711584000000 testCall = some bytes ∧
    vaultTrading.postedBody .masked (testSign (keccak256 .masked bytes)) testKey 1711584000000
      testCall = some body ∧
    readRequest (PostRequest.text { id := 1, payload := body }) = some request ∧
    testSign (keccak256 .masked bytes) (request.digest .masked) priv = some sig ∧
    request.r ++ request.s = sig.compact ∧ request.v = 27 + sig.recid.val := by
  obtain ⟨bytes, hbytes⟩ := testCall_bytes
  obtain ⟨body, hbody⟩ := testCall_body hbytes
  obtain ⟨request, priv, sig, hread, -, -, -, -, hsig, hparts, hv⟩ :=
    posted_is_signed 1 testCall_inRange vaultTrading_vault hbody
  exact ⟨bytes, body, request, priv, sig, hbytes, hbody, hread, hsig, hparts, hv⟩

/-- The digest that is signed for a call. -/
def NativeHyperliquidTrading.signedDigest (t : NativeHyperliquidTrading) (wide : WideShift)
    (nonce : UInt64) (call : ActionCall) : Option ByteBuffer :=
  (t.actionHash (keccak256 wide) nonce call).map (l1Digest wide)

/-- `keccak256` collides on what is hashed to sign two texts: the actions, the messages about their
hashes, or what the digests are taken of. -/
def SigningCollides (wide : WideShift) (bytes bytes' : ByteBuffer) : Prop :=
  Collides (keccak256 wide) bytes bytes' ∨
    Collides (keccak256 wide)
      (structData (keccak256 wide (strBytes agentType)) (agentFields wide (keccak256 wide bytes)))
      (structData (keccak256 wide (strBytes agentType))
        (agentFields wide (keccak256 wide bytes'))) ∨
    Collides (keccak256 wide)
      (digestData (domainSeparator wide) (messageHash wide (keccak256 wide bytes)))
      (digestData (domainSeparator wide) (messageHash wide (keccak256 wide bytes')))

theorem agentFields_words {wide : WideShift} (bytes : ByteBuffer) :
    ∀ x ∈ agentFields wide (keccak256 wide bytes), x.length = 32 := by
  intro x hx
  rw [agentFields, List.mem_pair] at hx
  rcases hx with rfl | rfl <;> exact keccak256_length _

/-- One digest is signed for one text, or the texts collide. -/
theorem l1Digest_inj {wide : WideShift} {bytes bytes' : ByteBuffer}
    (h : l1Digest wide (keccak256 wide bytes) = l1Digest wide (keccak256 wide bytes')) :
    bytes = bytes' ∨ SigningCollides wide bytes bytes' := by
  rw [l1Digest_eq, l1Digest_eq] at h
  rcases TypedData.digest_eq h with hstruct | hcollides
  · have hcount : (agentFields wide (keccak256 wide bytes)).length =
        (agentFields wide (keccak256 wide bytes')).length := by simp [agentFields]
    rcases TypedData.hashStruct_eq hcount (agentFields_words bytes) (agentFields_words bytes')
      hstruct with hfields | hcollides
    · simp only [agentFields, List.cons.injEq, and_true, true_and] at hfields
      exact (TypedData.eq_or_collides hfields).imp_right .inl
    · exact .inr (.inr (.inl hcollides))
  · rw [← messageHash_eq, ← messageHash_eq] at hcollides
    exact .inr (.inr (.inr hcollides))

/-- Calls with one digest have one text, nonce and vault address, unless `keccak256` collides on
what is hashed for them. -/
theorem digest_authorises_one {t t' : NativeHyperliquidTrading} {wide : WideShift}
    {call call' : ActionCall} {vault vault' : Option ByteBuffer} {nonce nonce' : UInt64}
    {digest : ByteBuffer} (hcall : t.InRange call) (hvault : t.Vault vault)
    (hcall' : t'.InRange call') (hvault' : t'.Vault vault')
    (h : t.signedDigest wide nonce call = some digest)
    (h' : t'.signedDigest wide nonce' call' = some digest) :
    t.actionJson call = t'.actionJson call' ∧ nonce = nonce' ∧ vault = vault' ∨
      ∃ bytes bytes', t.actionBytes nonce call = some bytes ∧
        t'.actionBytes nonce' call' = some bytes' ∧ SigningCollides wide bytes bytes' := by
  obtain ⟨action, hfits, -, hjson, hbytes⟩ := NativeHyperliquidTrading.InRange.encodings hcall
  obtain ⟨action', hfits', -, hjson', hbytes'⟩ := NativeHyperliquidTrading.InRange.encodings hcall'
  have hb := hbytes nonce vault hvault
  have hb' := hbytes' nonce' vault' hvault'
  simp only [NativeHyperliquidTrading.signedDigest, NativeHyperliquidTrading.actionHash_eq, hb, hb',
    Option.map_some, Option.some.injEq] at h h'
  rcases l1Digest_inj (h.trans h'.symm) with hsame | hcollides
  · left
    obtain ⟨rfl, htrailer⟩ := MsgPack.encode_append_inj hfits hfits' hsame
    obtain ⟨rfl, rfl⟩ := trailer_inj htrailer
    exact ⟨hjson.trans hjson'.symm, rfl, rfl⟩
  · exact .inr ⟨_, _, hb, hb', hcollides⟩

/-- The same vault, its address in capitals. -/
def capitalTrading : NativeHyperliquidTrading :=
  { vaultTrading with vaultAddress := some "0XA3FB9FED3FE24BAAAFCBE783409BEDAEFF28D0A7" }

theorem digest_authorises_one_capitals :
    vaultTrading.actionJson testCall = capitalTrading.actionJson testCall ∧
        (1711584000000 : UInt64) = 1711584000000 ∧ some vaultBytes = some vaultBytes ∨
      ∃ bytes bytes', vaultTrading.actionBytes 1711584000000 testCall = some bytes ∧
        capitalTrading.actionBytes 1711584000000 testCall = some bytes' ∧
        SigningCollides .masked bytes bytes' := by
  have hcall' : capitalTrading.InRange testCall := (by decide +kernel : _ ∧ _ ∧ _)
  have hvault' : capitalTrading.Vault (some vaultBytes) :=
    ⟨rfl, _, "A3FB9FED3FE24BAAAFCBE783409BEDAEFF28D0A7".toList, rfl, by decide +kernel,
      .inr (.inr (by decide +kernel))⟩
  obtain ⟨bytes, hbytes⟩ := testCall_bytes
  have hbytes' : capitalTrading.actionBytes 1711584000000 testCall = some bytes :=
    Eq.trans (by decide +kernel) hbytes
  have hdigest : ∀ t : NativeHyperliquidTrading, t.actionBytes 1711584000000 testCall = some bytes →
      t.signedDigest .masked 1711584000000 testCall =
        some (l1Digest .masked (keccak256 .masked bytes)) := by
    intro t h
    rw [NativeHyperliquidTrading.signedDigest, NativeHyperliquidTrading.actionHash_eq, h,
      Option.map_some, Option.map_some]
  exact digest_authorises_one testCall_inRange vaultTrading_vault hcall' hvault'
    (hdigest _ hbytes) (hdigest _ hbytes')

end Arb
