import CordactylBot.Dpp.Rest

/-!
The `*_not_null` readers of D++ and the embed constructor built from them.

A reader ignores an absent key, takes null and strings for zero where it wants a
number, and hands every other value to `get<T>()`, so that a container, or a
boolean where an `uint64_t` is wanted, throws.
-/

namespace Dpp

variable (P : Platform)

/-- `string_not_null`: the string, and the empty string for everything else. -/
def stringNotNull (j : Json) (key : String) : String :=
  match j.find? key with
  | some (.string s) => s
  | _ => ""

/-- `set_int64_not_null`: the new value of the target `v`. -/
def setInt64NotNull (j : Json) (key : String) (v : UInt64) : Except Exception UInt64 :=
  match j.find? key with
  | some k => if !k.isNull && !k.isString then k.getUInt64 P.castUndefined else .ok 0
  | none => .ok v

/-- `int32_not_null` and `int8_not_null`, by the width of the target. -/
def intNotNull (bits : Nat) (j : Json) (key : String) : Except Exception Nat :=
  match j.find? key with
  | some k => if !k.isNull && !k.isString then k.getArithmetic P.castUndefined bits else .ok 0
  | none => .ok 0

def int32NotNull (j : Json) (key : String) : Except Exception UInt32 :=
  (intNotNull P 32 j key).map UInt32.ofNat

def int8NotNull (j : Json) (key : String) : Except Exception UInt8 :=
  (intNotNull P 8 j key).map UInt8.ofNat

/-- `bool_not_null`: unlike the numeric readers it does not excuse a string. -/
def boolNotNull (j : Json) (key : String) : Except Exception Bool :=
  match j.find? key with
  | some k => if !k.isNull then k.getBool else .ok false
  | none => .ok false

/-- `ts_not_null`. -/
def tsNotNull (j : Json) (key : String) : Int :=
  match j.find? key with
  | some (.string s) => P.parseTimestamp s
  | _ => 0

/-! ### Embeds -/

structure EmbedFooter where
  text : String
  iconUrl : String
  proxyUrl : String
deriving DecidableEq, Repr

structure EmbedImage where
  url : String
  height : UInt32
  width : UInt32
  proxyUrl : String
  loadingState : UInt8
  contentType : String
  placeholder : String
  placeholderVersion : UInt8
  flags : UInt32
deriving DecidableEq, Repr

structure EmbedProvider where
  name : String
  url : String
deriving DecidableEq, Repr

structure EmbedAuthor where
  name : String
  url : String
  iconUrl : String
  proxyIconUrl : String
deriving DecidableEq, Repr

structure EmbedField where
  name : String
  value : String
  isInline : Bool
deriving DecidableEq, Repr

/-- `dpp::embed`. -/
structure Embed where
  title : String := ""
  type : String := ""
  description : String := ""
  url : String := ""
  timestamp : Int := 0
  color : Option UInt32 := none
  footer : Option EmbedFooter := none
  image : Option EmbedImage := none
  thumbnail : Option EmbedImage := none
  video : Option EmbedImage := none
  provider : Option EmbedProvider := none
  author : Option EmbedAuthor := none
  fields : List EmbedField := []
deriving DecidableEq, Repr

/-- A member the constructor only reads after `contains` found its key. -/
def optionalMember {β : Type} (j : Json) (key : String) (read : Json → Except Exception β) :
    Except Exception (Option β) :=
  if j.contains key then do
    let m ← j.subscript key
    return some (← read m)
  else return none

def EmbedImage.ofJson (fi : Json) : Except Exception EmbedImage := do
  let url := stringNotNull fi "url"
  let height ← int32NotNull P fi "height"
  let width ← int32NotNull P fi "width"
  let proxyUrl := stringNotNull fi "proxy_url"
  let loadingState ← int8NotNull P fi "loading_state"
  let contentType := stringNotNull fi "content_type"
  let placeholder := stringNotNull fi "placeholder"
  let placeholderVersion ← int8NotNull P fi "placeholder_version"
  let flags ← int32NotNull P fi "flags"
  return { url, height, width, proxyUrl, loadingState, contentType, placeholder,
           placeholderVersion, flags }

def EmbedField.ofJson (field : Json) : Except Exception EmbedField := do
  let isInline ← boolNotNull field "inline"
  return { name := stringNotNull field "name", value := stringNotNull field "value", isInline }

/-- `embed::embed(json*)`, reading the members in the order of the source. -/
def Embed.ofJson (j : Json) : Except Exception Embed := do
  let color ← if j.contains "color" then (int32NotNull P j "color").map some else pure none
  let footer ← optionalMember j "footer" fun fj =>
    return { text := stringNotNull fj "text", iconUrl := stringNotNull fj "icon_url",
             proxyUrl := stringNotNull fj "proxy_url" }
  let image ← optionalMember j "image" (EmbedImage.ofJson P)
  let video ← optionalMember j "video" (EmbedImage.ofJson P)
  let thumbnail ← optionalMember j "thumbnail" (EmbedImage.ofJson P)
  let provider ← optionalMember j "provider" fun p =>
    return { name := stringNotNull p "name", url := stringNotNull p "url" }
  let author ← optionalMember j "author" fun a =>
    return { name := stringNotNull a "name", url := stringNotNull a "url",
             iconUrl := stringNotNull a "icon_url",
             proxyIconUrl := stringNotNull a "proxy_icon_url" }
  let fields ←
    if j.contains "fields" then do
      let fl ← j.subscript "fields"
      -- a range-for over any value: `items()` without the keys
      (fl.items.map Prod.snd).mapM EmbedField.ofJson
    else pure []
  return { title := stringNotNull j "title", type := stringNotNull j "type",
           description := stringNotNull j "description", url := stringNotNull j "url",
           timestamp := tsNotNull P j "timestamp",
           color, footer, image, thumbnail, video, provider, author, fields }

end Dpp
