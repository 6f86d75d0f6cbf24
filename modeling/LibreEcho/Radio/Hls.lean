import LibreEcho.Lib.CText
import LibreEcho.Lib.LongLines

/-!
The URLs of the radio player: how `radiod.c` takes one apart before it connects, and how
`radio_hls.c` resolves a reference of a playlist.

What a reference resolves to is a URL that the player can take apart.
-/
namespace LibreEcho.Radio

open CText (ofBuffer)

def hostMax : Nat := 256
def portMax : Nat := 16
def pathMaxLen : Nat := 384
def leHlsHostMax : Nat := 256
def leHlsPortMax : Nat := 16
def leHlsPathMax : Nat := 384
def leHlsUrlMax : Nat := 512

def http : CText := "http://".toList
def https : CText := "https://".toList

/-! ### Taking a URL apart -/

/-- What `strchr` and `memchr` find behind the scheme. -/
structure UrlParts where
  host : CText
  port : Option CText
  path : Option CText
deriving DecidableEq, Repr

def urlParts (rest : CText) : UrlParts where
  host := (rest.takeWhile (· ≠ '/')).takeWhile (· ≠ ':')
  port := (CText.cutAt ':' (rest.takeWhile (· ≠ '/'))).map Prod.snd
  path := (CText.cutAt '/' rest).map fun cut => '/' :: cut.2

structure SplitUrl where
  host : CText
  port : CText
  path : CText
  isHttps : Bool
deriving DecidableEq, Repr

/-- The part of `split_url` behind the scheme, with the sizes of its three buffers. -/
def splitRest (secure : Bool) (rest : CText) (hostSize portSize pathSize : Nat) :
    Option SplitUrl :=
  let parts := urlParts rest
  if parts.host.length = 0 ∨ hostSize ≤ parts.host.length then none
  else
    let port :=
      match parts.port with
      | some port => if port.length = 0 ∨ portSize ≤ port.length then none else some port
      | none => some ((if secure then "443".toList else "80".toList).take (portSize - 1))
    match port with
    | none => none
    | some port =>
        let path := parts.path.getD ['/']
        if pathSize ≤ path.length then none
        else some ⟨parts.host, port, path, secure⟩

def splitUrl (url : CText) (hostSize portSize pathSize : Nat) : Option SplitUrl :=
  if https <+: url then splitRest true (url.drop 8) hostSize portSize pathSize
  else if http <+: url then splitRest false (url.drop 7) hostSize portSize pathSize
  else none

/-- The player can take the URL apart in buffers of its own sizes. -/
def Usable (url : CText) : Prop :=
  (splitUrl url hostMax portMax pathMaxLen).isSome

instance (url : CText) : Decidable (Usable url) :=
  inferInstanceAs (Decidable (_ = true))

/-! ### Resolving a reference -/

def schemeLength (u : CText) : Option Nat :=
  if http <+: u then some 7 else if https <+: u then some 8 else none

/-- `c <= 0x20 || c == 0x7f`. -/
def isControl (c : Char) : Bool :=
  c.toNat ≤ 0x20 || c.toNat = 0x7f

def urlOk (u : CText) : Bool :=
  match schemeLength u with
  | none => false
  | some scheme =>
      let parts := urlParts (u.drop scheme)
      if u.any isControl then false
      else if parts.host.length = 0 ∨ leHlsHostMax ≤ parts.host.length then false
      else if parts.port.any fun port => port.length = 0 ∨ leHlsPortMax ≤ port.length then false
      else if leHlsPathMax ≤ parts.path.elim 1 List.length then false
      else true

def urlSet (u : CText) (size : Nat) : Option CText :=
  if size ≤ u.length ∨ urlOk u = false then none else some u

/-- `%.*s`: a length that is negative as an `int` is none. -/
def printed (precision : Nat) (s : CText) : CText :=
  let limit := (precision : Int).bmod (2 ^ 32)
  if limit < 0 then s else s.take limit.toNat

/-- Just behind the last `/` before `i`, looked for down to the scheme. -/
def folderEnd (base : CText) (scheme : Nat) : Nat → Option Nat
  | 0 => none
  | i + 1 =>
      if scheme < i + 1 then
        if base[i]? = some '/' then some (i + 1) else folderEnd base scheme i
      else none

/-- The text that `le_hls_resolve` builds from a base and a relative reference. -/
def builtUrl (base ref : CText) (scheme : Nat) : CText :=
  if ref[0]? = some '/' ∧ ref[1]? = some '/' then printed (scheme - 2) base ++ ref
  else if ref[0]? = some '/' then
    let authLen := scheme + ((base.drop scheme).takeWhile fun c => c ∉ ['/', '?', '#']).length
    printed authLen base ++ ref
  else
    let cut := (base.takeWhile fun c => c ∉ ['?', '#']).length
    match folderEnd base scheme cut with
    | some last => printed last base ++ ref
    | none => printed cut base ++ '/' :: ref

/-- `le_hls_resolve` into a buffer of `size` bytes. -/
def leHlsResolve (base : Option CText) (ref : CText) (size : Nat) : Option CText :=
  if size = 0 then none
  else if http <+: ref ∨ https <+: ref then urlSet ref size
  else
    match base with
    | none => none
    | some base =>
        match schemeLength base with
        | none => none
        | some scheme =>
            let tmp := builtUrl base ref scheme
            if leHlsUrlMax ≤ tmp.length then none else urlSet tmp size

/-! ### What is resolved is usable -/

theorem schemes_apart {u : CText} (secure : https <+: u) : ¬ http <+: u := by
  intro plain
  have front : http <+: https :=
    List.prefix_of_prefix_length_le plain secure (by decide)
  exact absurd front (by decide)

theorem splitRest_isSome {secure : Bool} {rest : CText}
    (host : ¬ ((urlParts rest).host.length = 0 ∨ hostMax ≤ (urlParts rest).host.length))
    (port : ∀ port, (urlParts rest).port = some port →
      ¬ (port.length = 0 ∨ portMax ≤ port.length))
    (path : ¬ pathMaxLen ≤ ((urlParts rest).path.getD ['/']).length) :
    (splitRest secure rest hostMax portMax pathMaxLen).isSome := by
  unfold splitRest
  dsimp only
  rw [if_neg host]
  cases found : (urlParts rest).port with
  | none =>
      dsimp only
      rw [if_neg path]
      rfl
  | some text =>
      dsimp only
      rw [if_neg (port text found)]
      dsimp only
      rw [if_neg path]
      rfl

theorem urlOk_usable {u : CText} (ok : urlOk u = true) : Usable u := by
  unfold urlOk at ok
  split at ok
  · cases ok
  next scheme known =>
    dsimp only at ok
    split at ok
    · cases ok
    split at ok
    · cases ok
    next host =>
      split at ok
      · cases ok
      next port =>
        split at ok
        · cases ok
        next path =>
          have ports : ∀ text, (urlParts (u.drop scheme)).port = some text →
              ¬ (text.length = 0 ∨ portMax ≤ text.length) := by
            intro text found wrong
            rw [found] at port
            exact port (decide_eq_true wrong)
          have fits : ¬ pathMaxLen ≤ ((urlParts (u.drop scheme)).path.getD ['/']).length := by
            cases found : (urlParts (u.drop scheme)).path <;> rw [found] at path <;> exact path
          have taken (secure : Bool) :
              (splitRest secure (u.drop scheme) hostMax portMax pathMaxLen).isSome :=
            splitRest_isSome host ports fits
          unfold schemeLength at known
          unfold Usable splitUrl
          split at known
          next plain =>
            obtain rfl := Option.some.inj known
            rw [if_neg fun secure => schemes_apart secure plain, if_pos plain]
            exact taken false
          next =>
            split at known
            · next secure =>
                obtain rfl := Option.some.inj known
                rw [if_pos secure]
                exact taken true
            · cases known

theorem urlSet_some {u url : CText} {size : Nat} (set : urlSet u size = some url) :
    Usable url ∧ url.length < size := by
  unfold urlSet at set
  split at set
  · cases set
  next fine =>
    obtain rfl := Option.some.inj set
    obtain ⟨room, ok⟩ := not_or.mp fine
    exact ⟨urlOk_usable (by simpa using ok), Nat.lt_of_not_le room⟩

theorem leHlsResolve_some {base : Option CText} {ref url : CText} {size : Nat}
    (resolved : leHlsResolve base ref size = some url) : Usable url ∧ url.length < size := by
  unfold leHlsResolve at resolved
  split at resolved
  · cases resolved
  split at resolved
  · exact urlSet_some resolved
  split at resolved
  · cases resolved
  split at resolved
  · cases resolved
  dsimp only at resolved
  split at resolved
  · cases resolved
  · exact urlSet_some resolved

end LibreEcho.Radio

/-!
The playlist parser of `radio_hls.c`, line by line.
-/
namespace LibreEcho.Radio

open CText (ofBuffer linesOf)

def leHlsMaxSegments : Nat := 16
def leHlsBandwidthMax : Nat := 128000

/-! ### Attribute lists -/

/-- The end of an attribute and the place of its `=`, 0 where there is none. -/
def attrScan (quoted : Bool) (eq i : Nat) : CText → Nat × Nat
  | [] => (i, eq)
  | c :: s =>
      if c = '"' then attrScan (!quoted) eq (i + 1) s
      else if c = ',' ∧ quoted = false then (i, eq)
      else if c = '=' ∧ quoted = false ∧ eq = 0 then attrScan quoted i (i + 1) s
      else attrScan quoted eq (i + 1) s

def trimBlanks (s : CText) : CText :=
  ((s.dropWhile (· = ' ')).reverse.dropWhile (· = ' ')).reverse

def unquoted (s : CText) : CText :=
  if 2 ≤ s.length ∧ s.head? = some '"' ∧ s.getLast? = some '"' then s.tail.dropLast else s

/-- `next_attr`: the name, the value (empty where there is none) and where the next one starts. -/
def nextAttr (s : CText) (pos : Nat) : Option (CText × CText × Nat) :=
  if s.length ≤ pos then none
  else
    let (stop, eq) := attrScan false 0 pos (s.drop pos)
    let next := if stop < s.length then stop + 1 else s.length
    if eq = 0 then some (trimBlanks ((s.take stop).drop pos), [], next)
    else
      some (trimBlanks ((s.take eq).drop pos),
        unquoted (trimBlanks ((s.take stop).drop (eq + 1))), next)

def attributesFrom : Nat → CText → Nat → List (CText × CText)
  | 0, _, _ => []
  | fuel + 1, s, pos =>
      match nextAttr s pos with
      | none => []
      | some (name, value, next) => (name, value) :: attributesFrom fuel s next

/-- Every attribute of a list in turn; each takes at least one character. -/
def attributes (s : CText) : List (CText × CText) :=
  attributesFrom s.length s 0

/-! ### Values -/

def digitsFrom (v : Nat) : CText → Option Nat
  | [] => some v
  | c :: s =>
      if c < '0' ∨ '9' < c then none
      else
        let d := c.toNat - '0'.toNat
        if (2000000000000 - d) / 10 < v then none else digitsFrom (v * 10 + d) s

def digits (s : CText) : Option Nat :=
  if s = [] then none else digitsFrom 0 s

def lowered (c : Char) : Char :=
  if 'A' ≤ c ∧ c ≤ 'Z' then Char.ofNat (c.toNat - 'A'.toNat + 'a'.toNat) else c

/-- `ci_eq` against a word in lower case. -/
def ciEq (s want : CText) : Bool :=
  s.map lowered = want

def codecOk (s : CText) : Bool :=
  ["mp4a.40.2".toList, "mp4a.40.5".toList, "mp4a.40.34".toList, "mp3".toList].any (ciEq s)

/-- Every piece between commas; nothing behind the last comma is no piece. -/
def codecPieces (v : CText) : List CText :=
  let pieces := v.splitOn ','
  if pieces.getLast? = some [] then pieces.dropLast else pieces

def codecsOk (v : CText) : Bool :=
  (codecPieces v).all fun piece => codecOk (trimBlanks piece)

/-! ### Lines -/

inductive HlsTag where
  | extinf
  | streamInf (attrs : CText)
  | mediaSequence (value : CText)
  | targetDuration (value : CText)
  | endlist
  | key (attrs : CText)
  | map
  | other
deriving DecidableEq, Repr

def tagExtinf : CText := "#EXTINF:".toList
def tagStreamInf : CText := "#EXT-X-STREAM-INF:".toList
def tagMediaSequence : CText := "#EXT-X-MEDIA-SEQUENCE:".toList
def tagTargetDuration : CText := "#EXT-X-TARGETDURATION:".toList
def tagEndlist : CText := "#EXT-X-ENDLIST".toList
def tagKey : CText := "#EXT-X-KEY:".toList
def tagMap : CText := "#EXT-X-MAP".toList

def hlsTag (line : CText) : HlsTag :=
  if tagExtinf <+: line then .extinf
  else if tagStreamInf <+: line then .streamInf (line.drop tagStreamInf.length)
  else if tagMediaSequence <+: line then .mediaSequence (line.drop tagMediaSequence.length)
  else if tagTargetDuration <+: line then .targetDuration (line.drop tagTargetDuration.length)
  else if line = tagEndlist then .endlist
  else if tagKey <+: line then .key (line.drop tagKey.length)
  else if tagMap <+: line then .map
  else .other

inductive HlsLine where
  | blank
  | tag (tag : HlsTag)
  | uri (line : CText)
deriving DecidableEq, Repr

def hlsLine : CText → HlsLine
  | [] => .blank
  | c :: s => if c = '#' then .tag (hlsTag (c :: s)) else .uri (c :: s)

def bareLine (line : CText) : CText :=
  let cut := line.takeWhile (· ≠ '\n')
  if cut.getLast? = some '\r' then cut.dropLast else cut

/-- The lines behind the header, `none` where the header is missing. -/
def afterHeader : List CText → Option (List CText)
  | [] => none
  | line :: rest =>
      if line = [] then afterHeader rest
      else if line = "#EXTM3U".toList then some rest
      else none

/-! ### The playlist -/

abbrev HlsEntries := { entries : List (Nat × CText) // entries.length ≤ leHlsMaxSegments }

structure LeHlsPlaylist where
  isMaster : Bool
  variant : CText
  mediaSequence : Nat
  targetDuration : Int
  endlist : Bool
  entries : HlsEntries
deriving DecidableEq

def copyStr (cap : Nat) (src : CText) : CText :=
  src.take (cap - 1)

theorem appendSegment_bound (entries : List (Nat × CText)) (entry : Nat × CText)
    (bound : entries.length ≤ leHlsMaxSegments) :
    (if entries.length < leHlsMaxSegments then entries ++ [entry]
      else entries.tail ++ [entry]).length ≤ leHlsMaxSegments := by
  unfold leHlsMaxSegments at bound ⊢
  split <;> simp only [List.length_append, List.length_tail, List.length_singleton] <;> omega

def appendSegment (out : LeHlsPlaylist) (seq : Nat) (uri : CText) : LeHlsPlaylist :=
  { out with
    entries := ⟨_, appendSegment_bound out.entries.val (seq, copyStr leHlsUrlMax uri)
      out.entries.property⟩ }

/-- The locals of `le_hls_parse`. -/
structure HlsParse where
  out : LeHlsPlaylist
  lowUri : CText
  lowBw : Nat
  bestLeBw : Nat
  segIndex : Nat
  haveLe : Bool
  haveLow : Bool
  pendingStream : Bool
  pendingOk : Bool
  pendingBw : Nat
  pendingExtinf : Bool
deriving DecidableEq

/-- `memset(out, 0, sizeof(*out))`. -/
def clearedPlaylist : LeHlsPlaylist where
  isMaster := false
  variant := []
  mediaSequence := 0
  targetDuration := 0
  endlist := false
  entries := ⟨[], Nat.zero_le _⟩

def hlsStart : HlsParse where
  out := clearedPlaylist
  lowUri := []
  lowBw := 0
  bestLeBw := 0
  segIndex := 0
  haveLe := false
  haveLow := false
  pendingStream := false
  pendingOk := false
  pendingBw := 0
  pendingExtinf := false

/-- What the attributes of a variant tell: the last number that is its bandwidth and whether the
last list of codecs is allowed. -/
def variantAttrs (attrs : CText) : Option Nat × Bool :=
  (attributes attrs).foldl
    (fun told attr =>
      if attr.1 = "BANDWIDTH".toList then ((digits attr.2).or told.1, told.2)
      else if attr.1 = "CODECS".toList then (told.1, codecsOk attr.2)
      else told)
    (none, true)

/-- The last `METHOD` is `NONE`. -/
def unencrypted (attrs : CText) : Bool :=
  (attributes attrs).foldl
    (fun open_ attr => if attr.1 = "METHOD".toList then ciEq attr.2 "none".toList else open_) false

/-- A bandwidth as an `int`. -/
def clampBandwidth (bw : Nat) : Nat :=
  if 2000000000 < bw then 2000000000 else bw

/-- A line that starts with `#`; an error is a refused playlist. -/
def hlsTagged (s : HlsParse) : HlsTag → Except HlsParse HlsParse
  | .extinf => .ok { s with pendingExtinf := true }
  | .streamInf attrs =>
      let (bw, ok) := variantAttrs attrs
      .ok
        { s with
          out := { s.out with isMaster := true }
          pendingExtinf := false
          pendingStream := true
          pendingOk := bw.isSome && ok
          pendingBw := bw.elim 0 clampBandwidth }
  | .mediaSequence value =>
      match digits value with
      | some v => .ok { s with out := { s.out with mediaSequence := v } }
      | none => .ok s
  | .targetDuration value =>
      match digits value with
      | some v => .ok { s with out := { s.out with targetDuration := (v : Int).bmod (2 ^ 32) } }
      | none => .ok s
  | .endlist => .ok { s with out := { s.out with endlist := true } }
  | .key attrs => if unencrypted attrs then .ok s else .error s
  | .map => .error s
  | .other => .ok s

/-- A variant that resolves is compared with the best one so far. -/
def offerVariant (s : HlsParse) (url : CText) : HlsParse :=
  if s.pendingBw ≤ leHlsBandwidthMax then
    if s.haveLe = false ∨ s.bestLeBw < s.pendingBw then
      { s with
        bestLeBw := s.pendingBw
        haveLe := true
        out := { s.out with variant := copyStr leHlsUrlMax url } }
    else s
  else if s.haveLow = false ∨ s.pendingBw < s.lowBw then
    { s with lowBw := s.pendingBw, haveLow := true, lowUri := copyStr leHlsUrlMax url }
  else s

def hlsReference (base : Option CText) (s : HlsParse) (line : CText) : HlsParse :=
  if leHlsUrlMax ≤ line.length then
    if s.pendingStream then { s with pendingStream := false }
    else if s.pendingExtinf then { s with pendingExtinf := false, segIndex := s.segIndex + 1 }
    else s
  else
    let ref := ofBuffer line
    if s.pendingStream then
      let s := { s with pendingStream := false }
      if s.pendingOk then
        match leHlsResolve base ref leHlsUrlMax with
        | some url => offerVariant s url
        | none => s
      else s
    else if s.pendingExtinf then
      let seq := s.out.mediaSequence + s.segIndex
      let s := { s with pendingExtinf := false, segIndex := s.segIndex + 1 }
      match leHlsResolve base ref leHlsUrlMax with
      | some url => { s with out := appendSegment s.out seq url }
      | none => s
    else s

def hlsStep (base : Option CText) (s : HlsParse) (line : CText) : Except HlsParse HlsParse :=
  match hlsLine line with
  | .blank => .ok s
  | .tag tag => hlsTagged s tag
  | .uri line => .ok (hlsReference base s line)

def hlsRun (base : Option CText) : HlsParse → List CText → Except HlsParse HlsParse
  | s, [] => .ok s
  | s, line :: rest =>
      match hlsStep base s line with
      | .ok s => hlsRun base s rest
      | .error s => .error s

/-- The end of `le_hls_parse`: a master playlist takes its variant. -/
def hlsFinish (s : HlsParse) : Except LeHlsPlaylist LeHlsPlaylist :=
  if s.out.isMaster then
    if s.haveLe = false ∧ s.haveLow = false then .error s.out
    else
      let out :=
        if s.haveLe then s.out
        else { s.out with variant := copyStr leHlsUrlMax s.lowUri }
      .ok { out with entries := ⟨[], Nat.zero_le _⟩ }
  else .ok s.out

/-- `le_hls_parse`; an error is its -1, with what stands in `out` then. -/
def leHlsParse (text : CText) (base : Option CText) : Except LeHlsPlaylist LeHlsPlaylist :=
  match afterHeader ((linesOf text).map bareLine) with
  | none => .error clearedPlaylist
  | some lines =>
      match hlsRun base hlsStart lines with
      | .error s => .error s.out
      | .ok s => hlsFinish s

end LibreEcho.Radio
