namespace Coap

/-- Payload formats: the registered ones by name, any other by number. -/
inductive ContentFormat where
  | text
  | textXml
  | csv
  | html
  | gif
  | jpeg
  | png
  | tiff
  | audioRaw
  | videoRaw
  | linkFormat
  | xml
  | octetStream
  | rdfXml
  | soapXml
  | atomXml
  | xmppXml
  | exi
  | fastInfoset
  | soapFastInfoset
  | json
  | obixBinary
  | other (number : UInt16)
  deriving DecidableEq, Ord, Repr

namespace ContentFormat

def number : ContentFormat → UInt16
  | text => 0
  | textXml => 1
  | csv => 2
  | html => 3
  | gif => 21
  | jpeg => 22
  | png => 23
  | tiff => 24
  | audioRaw => 25
  | videoRaw => 26
  | linkFormat => 40
  | xml => 41
  | octetStream => 42
  | rdfXml => 43
  | soapXml => 44
  | atomXml => 45
  | xmppXml => 46
  | exi => 47
  | fastInfoset => 48
  | soapFastInfoset => 49
  | json => 50
  | obixBinary => 51
  | other n => n

/-- The formats that have a name, in ascending order. -/
def registered : List ContentFormat :=
  [text, textXml, csv, html, gif, jpeg, png, tiff, audioRaw, videoRaw, linkFormat, xml, octetStream,
    rdfXml, soapXml, atomXml, xmppXml, exi, fastInfoset, soapFastInfoset, json, obixBinary]

def ofNumber (n : UInt16) : ContentFormat :=
  (registered.find? (·.number == n)).getD (other n)

def name : ContentFormat → String
  | text => "Text"
  | textXml => "TextXml"
  | csv => "Csv"
  | html => "Html"
  | gif => "Gif"
  | jpeg => "Jpeg"
  | png => "Png"
  | tiff => "Tiff"
  | audioRaw => "AudioRaw"
  | videoRaw => "VideoRaw"
  | linkFormat => "LinkFormat"
  | xml => "Xml"
  | octetStream => "OctetStream"
  | rdfXml => "RdfXml"
  | soapXml => "SoapXml"
  | atomXml => "AtomXml"
  | xmppXml => "XmppXml"
  | exi => "Exi"
  | fastInfoset => "FastInfoset"
  | soapFastInfoset => "SoapFastInfoset"
  | json => "Json"
  | obixBinary => "ObixBinary"
  | other n => s!"Other({n})"

/-- A registered format by its name. -/
def ofName? (s : String) : Option ContentFormat := registered.find? (·.name == s)

end ContentFormat

end Coap
