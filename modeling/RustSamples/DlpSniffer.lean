import RustSamples.DlpSignatures

/-! # `dlp_sniffer`

One engine with the signature for cards looks at the bodies of requests (`proxy_handler`) and at
captured packets (`run_sniffer`).  What is not UTF-8 the proxy does not look at; the sniffer reads
it with replacement characters, if that makes more than 40 bytes.

Bytes get no shorter by being read so, and neither the bytes in front of a text nor those behind it
change how the text is read.  So in every packet of more than 40 bytes the sniffer sees each card
whatever surrounds it, as far as the text around it lets it stand alone; but the first capture that
is no packet, such as a second without one, ends the loop (`sniffer_reports_row`).  The proxy is
blind to a body with one byte that is in no text (`proxy_is_blinded`).
-/
namespace RustSamples.DlpSniffer
open RustStr RegexScan DlpAnalyzer

/-- What is printed for one text. -/
structure Alert where
  context : List Char
  fragments : List (List Char)
  deriving DecidableEq

/-- `pcap::Error`, as far as the loop goes on it. -/
inductive PcapError
  | timeoutExpired
  | noMorePackets
  | other

structure Response where
  status : Nat
  body : List Char
  deriving DecidableEq

variable (C : RegexCrate)

/-- `inspect_data`.  The pattern is that of `dlp_analyzer`. -/
def inspectData (context data : List Char) : Option Alert :=
  if C.search.isMatch C.cardPattern data then
    some ⟨context, C.search.findIter C.cardPattern data⟩
  else none

/-- The body of the loop of `run_sniffer`. -/
def inspectPacket (data : List UInt8) : Option Alert :=
  match decodeUtf8 data with
  | some payloadText => inspectData C "Passive Network Sniffer".toList payloadText
  | none =>
      let lossyText := fromUtf8Lossy data
      if len lossyText > 40 then inspectData C "Passive Network Sniffer (Lossy)".toList lossyText
      else none

/-- `run_sniffer`, of what `next_packet` gives: `while let Ok(packet)`. -/
def runSniffer : List (Except PcapError (List UInt8)) → List Alert
  | [] => []
  | .error _ :: _ => []
  | .ok data :: later => (inspectPacket C data).toList ++ runSniffer later

def processed : Response := ⟨200, "data successfully processed by the DLP proxy".toList⟩

/-- `proxy_handler`, of the URI and of what `to_bytes` gives. -/
def proxyHandler (uri : List Char) : Option (List UInt8) → Option Alert × Response
  | none => (none, ⟨400, "Error reading request body".toList⟩)
  | some bodyBytes =>
      (match decodeUtf8 bodyBytes with
        | some text => inspectData C ("HTTP Proxy Request to ".toList ++ uri) text
        | none => none,
      processed)

/-- The fragments that are printed. -/
def fragmentsOf (alert : Option Alert) : List (List Char) := alert.elim [] Alert.fragments

variable {C}

/-! ## What one text gives -/

theorem inspectData_of_ne_nil {context data : List Char} (h : C.cardNumbers data ≠ []) :
    inspectData C context data = some ⟨context, C.cardNumbers data⟩ :=
  if_pos ((C.search.isMatch_iff_ne_nil RegexCrate.simple_cardPattern data).2 h)

/-- All numbers are printed, and nothing if there is none. -/
theorem fragmentsOf_inspectData (context data : List Char) :
    fragmentsOf (inspectData C context data) = C.cardNumbers data := by
  by_cases h : C.cardNumbers data = []
  · have hmatch := C.search.isMatch_iff_ne_nil (RegexCrate.simple_cardPattern (C := C)) data
    have hnone : inspectData C context data = none := if_neg fun hsome => hmatch.1 hsome h
    rw [hnone, h]
    rfl
  · rw [inspectData_of_ne_nil h]
    rfl

/-- A packet of more than 40 bytes is looked at as the text that it is read as. -/
theorem exists_inspectPacket_eq {data : List UInt8} (hlong : 40 < data.length) :
    ∃ context, inspectPacket C data = inspectData C context (fromUtf8Lossy data) := by
  rw [inspectPacket]
  cases h : decodeUtf8 data with
  | some text =>
    rw [decodeUtf8_eq_some_iff.1 h, fromUtf8Lossy_utf8]
    exact ⟨_, rfl⟩
  | none => exact ⟨_, if_pos (Nat.lt_of_lt_of_le hlong (length_le_len_fromUtf8Lossy data))⟩

/-! ## The run of the sniffer -/

theorem runSniffer_append (packets : List (List UInt8))
    (later : List (Except PcapError (List UInt8))) :
    runSniffer C (packets.map .ok ++ later) =
      packets.flatMap (fun data => (inspectPacket C data).toList) ++ runSniffer C later := by
  induction packets with
  | nil => rfl
  | cons data packets ih =>
    rw [List.map_cons, List.cons_append, runSniffer, ih, List.flatMap_cons, List.append_assoc]

theorem rowNumbers_ne_nil (g : C.Group) {row : List (RegexCrate.Separator × C.Group)}
    (hfour : 3 ≤ row.length) : C.rowNumbers g row ≠ [] := by
  rcases row with _ | ⟨p, _ | ⟨q, _ | ⟨r, _ | ⟨next, row⟩⟩⟩⟩
  · exact absurd hfour (by simp)
  · exact absurd hfour (by simp)
  · exact absurd hfour (by simp)
  · exact List.cons_ne_nil _ _
  · exact List.cons_ne_nil _ _

/-- **What the sniffer reports.**  Let a captured packet of more than 40 bytes have a row of four or
more groups between any bytes, so that what these are read as lets the row stand alone, and let
every capture before it be a packet.  Then there is one alert for it, with the row's first four
groups, the next four, and so on, and all other fragments are from the bytes around the row.  From
the first capture on that is no packet there is no alert. -/
theorem sniffer_reports_row {x y : List UInt8} (g : C.Group)
    (row : List (RegexCrate.Separator × C.Group)) (hfour : 3 ≤ row.length)
    (halone : C.StandsAlone (fromUtf8Lossy x) (fromUtf8Lossy y))
    (hlong : 40 < (x ++ (utf8 (C.rowText g row) ++ y)).length) (earlier : List (List UInt8)) :
    (∀ later, ∃ alert, runSniffer C
        (earlier.map .ok ++ .ok (x ++ (utf8 (C.rowText g row) ++ y)) :: later) =
          runSniffer C (earlier.map .ok) ++ alert :: runSniffer C later ∧
        ∃ before after, alert.fragments = before ++ (C.rowNumbers g row ++ after) ∧
          (∀ m ∈ before, m <:+: fromUtf8Lossy x) ∧ ∀ m ∈ after, m <:+: fromUtf8Lossy y) ∧
      ∀ e later, runSniffer C (earlier.map .ok ++ .error e :: later) =
        runSniffer C (earlier.map .ok) := by
  have hearlier := runSniffer_append (C := C) earlier []
  rw [List.append_nil, runSniffer, List.append_nil] at hearlier
  constructor
  · intro later
    have hne := (RegexCrate.groups_rowText g row).joined.nonempty
    obtain ⟨before, after, hnumbers, hbefore, hafter⟩ :=
      RegexCrate.exists_cardNumbers_row halone g row
    obtain ⟨context, hpacket⟩ := exists_inspectPacket_eq (C := C) hlong
    rw [fromUtf8Lossy_append_utf8 hne, inspectData_of_ne_nil ?_] at hpacket
    · refine ⟨⟨context, _⟩, ?_, before, after, hnumbers, hbefore, hafter⟩
      rw [runSniffer_append, runSniffer, hpacket, hearlier]
      rfl
    · rw [hnumbers]
      exact List.append_ne_nil_of_right_ne_nil _
        (List.append_ne_nil_of_left_ne_nil (rowNumbers_ne_nil g hfour) _)
  · intro e later
    rw [runSniffer_append, runSniffer, List.append_nil, hearlier]

/-- The packet that the next lemma is about: a byte that is in no text, a label and a card. -/
def cardPacket : List UInt8 :=
  0xFF :: utf8 "the card of the customer:".toList ++ (utf8 "4539 1488 0343 6467".toList ++ [])

theorem standsAlone_label : asciiClasses.StandsAlone
    (fromUtf8Lossy (0xFF :: utf8 "the card of the customer:".toList)) (fromUtf8Lossy []) where
  front_notWord := by decide
  rest_notWord := rfl
  front_notJoined x d c h hsep := by
    have hread : fromUtf8Lossy (0xFF :: utf8 "the card of the customer:".toList) =
        (replacement :: "the card of the custome".toList) ++ ['r', ':'] := by decide
    obtain ⟨_, hlast⟩ := List.append_inj' (hread.symm.trans h) rfl
    obtain ⟨_, hlast⟩ := List.cons.inj hlast
    obtain ⟨rfl, _⟩ := List.cons.inj hlast
    exact absurd hsep (by decide)
  rest_notJoined x d c h := by cases h

/-- A card in the second packet is reported, and nothing after a second without packets. -/
theorem card_in_packet : (∀ later, ∃ alert, runSniffer asciiClasses
      ([[]].map .ok ++ .ok cardPacket :: later) =
        runSniffer asciiClasses ([[]].map .ok) ++ alert :: runSniffer asciiClasses later ∧
      ∃ before after, alert.fragments =
        before ++ (["4539 1488 0343 6467".toList] ++ after) ∧
        (∀ m ∈ before, m <:+: fromUtf8Lossy (0xFF :: utf8 "the card of the customer:".toList)) ∧
        ∀ m ∈ after, m <:+: fromUtf8Lossy []) ∧
    ∀ e later, runSniffer asciiClasses ([[]].map .ok ++ .error e :: later) =
      runSniffer asciiClasses ([[]].map .ok) :=
  sniffer_reports_row (groupOf 4 5 3 9) [blankAnd (groupOf 1 4 8 8), blankAnd (groupOf 0 3 4 3),
    blankAnd (groupOf 6 4 6 7)] (by decide) standsAlone_label (by decide) [[]]

/-! ## The proxy and one byte -/

/-- A character that is neither a word character nor a separator divides a text. -/
theorem foreign_cardPattern {c : Char} (hword : C.isWord c = false)
    (hsep : isSeparator c = false) : Foreign C.isWord C.cardPattern c := by
  have hdigit : C.isDigit c = false := RegexCrate.isDigit_of_notWord hword
  have hdigits : ∀ item ∈ C.digits 4, item.Rejects c := by
    intro item hitem
    rw [(List.mem_replicate.1 hitem).2]
    exact hdigit
  refine ⟨hword, ?_⟩
  simp only [RegexCrate.cardPattern, List.forall_mem_cons, List.forall_mem_append,
    List.not_mem_nil]
  exact ⟨trivial, hdigits, hsep, hdigits, hsep, hdigits, hsep, hdigits, trivial, fun _ h => h.elim⟩

/-- **One byte blinds the proxy.**  Of a text as a body it reports all numbers.  With one byte in
the body that is in no text it reports nothing, and answers as ever; while the sniffer reports of
the same bytes, if they are more than 40, what it finds in front of the byte and behind it. -/
theorem proxy_is_blinded (C : RegexCrate) (uri : List Char) :
    (∀ s, fragmentsOf (proxyHandler C uri (some (utf8 s))).1 = C.cardNumbers s) ∧
      ∀ x y : List UInt8, proxyHandler C uri (some (x ++ 0xFF :: y)) = (none, processed) ∧
        (40 < (x ++ 0xFF :: y).length → fragmentsOf (inspectPacket C (x ++ 0xFF :: y)) =
          C.cardNumbers (fromUtf8Lossy x) ++ C.cardNumbers (fromUtf8Lossy y)) := by
  refine ⟨fun s => ?_, fun x y => ⟨?_, fun hlong => ?_⟩⟩
  · rw [proxyHandler, decodeUtf8_eq_some_iff.2 rfl]
    exact fragmentsOf_inspectData _ s
  · rw [proxyHandler, decodeUtf8_append_ff]
  · obtain ⟨context, hpacket⟩ := exists_inspectPacket_eq (C := C) hlong
    rw [hpacket, fragmentsOf_inspectData, fromUtf8Lossy_append_ff]
    obtain ⟨_, hdigit⟩ := RegexCrate.simple_cardPattern.takes
    simp only [RegexCrate.cardNumbers_eq]
    exact findIter_append_cons hdigit (foreign_cardPattern C.replacement_notWord (by decide)) _ _

def cardText : List Char := "the card of the customer: 4539 1488 0343 6467".toList

theorem cardNumbers_cardText :
    asciiClasses.cardNumbers cardText = ["4539 1488 0343 6467".toList] := by decide

/-- A card as a body, with one byte more, and as a packet. -/
theorem card_with_one_byte :
    fragmentsOf (proxyHandler asciiClasses "/pay".toList (some (utf8 cardText))).1 =
        ["4539 1488 0343 6467".toList] ∧
      proxyHandler asciiClasses "/pay".toList (some (utf8 cardText ++ [0xFF])) =
        (none, processed) ∧
      fragmentsOf (inspectPacket asciiClasses (utf8 cardText ++ [0xFF])) =
        ["4539 1488 0343 6467".toList] := by
  obtain ⟨hclean, hblind⟩ := proxy_is_blinded asciiClasses "/pay".toList
  obtain ⟨hproxy, hsniffer⟩ := hblind (utf8 cardText) []
  refine ⟨(hclean cardText).trans cardNumbers_cardText, hproxy, ?_⟩
  rw [hsniffer (by decide), fromUtf8Lossy_utf8, cardNumbers_cardText]
  rfl

end RustSamples.DlpSniffer
