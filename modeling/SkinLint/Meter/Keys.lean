import SkinLint.Settings

/-! The keys that a meter may have: its own, those of every meter, and numbered families. -/
namespace SkinLint.Meter

def stringKeys : List String :=
  ["Text", "FontSize", "FontColor", "FontFace", "FontWeight", "FontEffectColor", "StringStyle",
   "StringAlign", "StringCase", "StringEffect", "Padding", "AntiAlias", "ClipString", "ClipStringW",
   "ClipStringH", "Angle", "Prefix", "Postfix", "Percentual", "AutoScale", "NumOfDecimals",
   "TransformationMatrix"]

def imageKeys : List String :=
  ["ImageName", "ImagePath", "ImageTint", "ImageAlpha", "ImageRotate", "ImageFlip", "ImageCrop",
   "ImageDivide", "PreserveAspectRatio", "ScaleMargins", "Tile", "GreyScale", "MaskImageName",
   "UseExifOrientation"]

def ownKeys : Meter → List Text
  | .string => stringKeys.map String.toList
  | .image => imageKeys.map String.toList

def sharedKeys : List Text :=
  ["Meter", "MeterStyle", "DynamicVariables", "SolidColor", "SolidColor2", "GradientAngle",
   "BevelType", "X", "Y", "W", "H", "Hidden", "UpdateDivider", "OnUpdateAction", "Group",
   "Container", "ToolTipText", "ToolTipTitle", "ToolTipIcon", "ToolTipType", "ToolTipWidth",
   "ToolTipHidden", "LeftMouseUpAction", "LeftMouseDownAction", "LeftMouseDoubleClickAction",
   "RightMouseUpAction", "RightMouseDownAction", "RightMouseDoubleClickAction",
   "MiddleMouseUpAction", "MiddleMouseDownAction", "MiddleMouseDoubleClickAction",
   "MouseOverAction", "MouseLeaveAction", "MouseScrollUpAction", "MouseScrollDownAction",
   "MouseActionCursor", "MouseActionCursorName"].map String.toList

/-- Families of keys: a name and any number of ASCII digits behind it. -/
def numberedFamilies : List Text :=
  ["MeasureName", "InlineSetting", "InlinePattern", "LineColor", "Scale", "Shape"].map String.toList

def inFamily (key family : Text) : Bool :=
  Text.eqIgnoreCase (key.take family.length) family &&
    (key.drop family.length).all Text.isAsciiDigit

/-- The first family a key belongs to. -/
def family? (key : Text) : Option Text := numberedFamilies.find? (inFamily key)

def isNumbered (key : Text) : Bool := numberedFamilies.any (inFamily key)

def listed (keys : List Text) (key : Text) : Bool := keys.any (Text.eqIgnoreCase · key)

/-- One more key at the end, unless it is listed already. -/
def addKey (keys : List Text) (key : Text) : List Text :=
  if listed keys key then keys else keys ++ [key]

/-- The keys of one kind of meter with configured ones behind them. -/
def keysWith (m : Meter) (extra : List Text) : List Text := extra.foldl addKey m.ownKeys

def allows (keys : List Text) (key : Text) : Bool := listed keys key || listed sharedKeys key

end SkinLint.Meter
