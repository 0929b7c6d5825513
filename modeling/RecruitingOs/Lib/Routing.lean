import Mathlib.Data.List.Basic
import RecruitingOs.Lib.JsonParse

/-!
# Routing by path

A route is a method and a path whose segments are texts or parameters.  The router cuts the
path of a request at the slashes, decodes each segment, and takes the first route that serves
the method and accepts the segments (`route`); a route for `GET` serves `HEAD`, too.

How a segment is decoded is a parameter, of which only `Decoder.plain` is known: a segment
without `%` stays as it is.  A decoded segment is never cut again.
-/

namespace Routing

/-- A segment of a route. -/
inductive Segment where
  | static (text : List Char)
  | param
deriving Repr, DecidableEq

/-- A route, as it is registered; `:name` is a parameter. -/
structure Route where
  method : String
  path : String
deriving Repr, DecidableEq

/-- How the router decodes a segment: `none` where the escapes are malformed. -/
structure Decoder where
  decode : List Char → Option (List Char)
  plain : ∀ text, '%' ∉ text → decode text = some text

/-- The segments of a path. -/
def segments (path : List Char) : List (List Char) := path.splitOn '/'

namespace Segment

def accepts : Segment → List Char → Bool
  | static text, segment => text = segment
  | param, _ => true

end Segment

/-- The segments that a route was registered with. -/
def Route.pattern (route : Route) : List Segment :=
  (segments route.path.toList).map fun segment =>
    if segment.head? = some ':' then .param else .static segment

/-- The methods that reach the handler of a route. -/
def Route.serves (route : Route) (method : String) : Bool :=
  method = route.method ∨ route.method = "GET" ∧ method = "HEAD"

/-- Segment by segment. -/
def accepts : List Segment → List (List Char) → Bool
  | [], [] => true
  | segment :: pattern, text :: texts => segment.accepts text && accepts pattern texts
  | _, _ => false

/-- The route of a request. -/
def route (decoder : Decoder) (routes : List Route) (method : String) (path : List Char) :
    Option Route :=
  ((segments path).mapM decoder.decode).bind fun decoded =>
    routes.find? fun r => r.serves method && accepts r.pattern decoded

variable {decoder : Decoder} {routes : List Route} {method : String} {path : List Char} {r : Route}

theorem route_eq_some (h : route decoder routes method path = some r) :
    r ∈ routes ∧ r.serves method ∧
      ∃ decoded, (segments path).mapM decoder.decode = some decoded ∧ accepts r.pattern decoded := by
  obtain ⟨decoded, hdecoded, hfind⟩ := Option.bind_eq_some_iff.mp h
  have hboth := List.find?_some hfind
  rw [Bool.and_eq_true] at hboth
  exact ⟨List.mem_of_find?_eq_some hfind, hboth.1, decoded, hdecoded, hboth.2⟩

/-! ### Decoding -/

theorem mapM_decode {texts : List (List Char)} (h : ∀ text ∈ texts, '%' ∉ text) :
    texts.mapM decoder.decode = some texts := by
  induction texts with
  | nil => rfl
  | cons text texts ih =>
      rw [List.mapM_cons, decoder.plain text (h text List.mem_cons_self),
        ih fun other hother => h other (List.mem_cons_of_mem _ hother)]
      rfl

/-- One segment is decoded, between segments that stay as they are. -/
theorem mapM_decode_around {before after : List (List Char)} {text : List Char}
    {decoded : List (List Char)} (hbefore : ∀ text ∈ before, '%' ∉ text)
    (hafter : ∀ text ∈ after, '%' ∉ text)
    (h : (before ++ text :: after).mapM decoder.decode = some decoded) :
    ∃ own, decoded = before ++ own :: after := by
  rw [List.mapM_append, List.mapM_cons, mapM_decode hbefore, mapM_decode hafter] at h
  cases hown : decoder.decode text with
  | none =>
      rw [hown] at h
      cases h
  | some own =>
      rw [hown] at h
      exact ⟨own, (Option.some.inj h).symm⟩

/-- A path without escapes is routed by the texts between its slashes. -/
theorem route_plain (h : ∀ text ∈ segments path, '%' ∉ text)
    (hroute : route decoder routes method path = some r) :
    r ∈ routes ∧ r.serves method ∧ accepts r.pattern (segments path) := by
  obtain ⟨hmem, hserves, decoded, hdecoded, haccepts⟩ := route_eq_some hroute
  rw [mapM_decode h] at hdecoded
  obtain rfl := Option.some.inj hdecoded
  exact ⟨hmem, hserves, haccepts⟩

/-- Two slashes with anything between them. -/
theorem segments_append {before : List Char} (h : '/' ∉ before) (after : List Char) :
    segments (before ++ '/' :: after) = before :: segments after :=
  List.splitOn_append_cons_self_of_not_mem h after

/-- A parameter accepts what any segment accepts. -/
theorem accepts_set_param {pattern : List Segment} {texts : List (List Char)}
    (h : accepts pattern texts) (i : ℕ) (text : List Char) :
    accepts (pattern.set i .param) (texts.set i text) := by
  induction pattern generalizing texts i with
  | nil =>
      cases texts with
      | nil => simp [accepts]
      | cons text texts => cases h
  | cons segment pattern ih =>
      cases texts with
      | nil => cases h
      | cons first texts =>
          obtain ⟨hfirst, hrest⟩ := (Bool.and_eq_true _ _).mp h
          cases i with
          | zero => exact (Bool.and_eq_true _ _).mpr ⟨rfl, hrest⟩
          | succ i => exact (Bool.and_eq_true _ _).mpr ⟨hfirst, ih hrest i⟩

/-! ### A decoder -/

/-- The characters whose escapes stay as they are. -/
def reserved : List Char := ";/?:@&=+$,#".toList

/-- `decodeURI` on escapes of one byte; longer ones are not decoded. -/
def decodeEscapes : List Char → Option (List Char)
  | [] => some []
  | c :: rest =>
      if c = '%' then
        match rest with
        | high :: low :: rest => do
            let code := 16 * (← Json.hexValue high) + (← Json.hexValue low)
            let decoded ← decodeEscapes rest
            if 128 ≤ code then none
            else if Char.ofNat code ∈ reserved then some ('%' :: high :: low :: decoded)
            else some (Char.ofNat code :: decoded)
        | _ => none
      else (decodeEscapes rest).map (c :: ·)

theorem decodeEscapes_plain {text : List Char} (h : '%' ∉ text) : decodeEscapes text = some text := by
  induction text with
  | nil => rfl
  | cons c rest ih =>
      obtain ⟨hc, hrest⟩ := not_or.mp (mt List.mem_cons.mpr h)
      unfold decodeEscapes
      rw [if_neg (Ne.symm hc), ih hrest]
      rfl

/-- The decoder of escapes of one byte. -/
def asciiDecoder : Decoder := ⟨decodeEscapes, fun _ => decodeEscapes_plain⟩

end Routing
