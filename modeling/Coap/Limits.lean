namespace Coap

def defaultPort : UInt16 := 5683

def defaultSecurePort : UInt16 := 5684

def protocolVersion : UInt8 := 1

def maxTokenLength : Nat := 8

def maxEtagLength : Nat := 8

/-- The number of Accept values that a message holds. -/
def maxAccept : Nat := 2

/-- The seconds that a response without Max-Age stays fresh. -/
def defaultMaxAge : Nat := 60

/-- The longest payload that is sent in one message. -/
def maxChunkSize : Nat := 128

/-- The room that a packet has for all that comes before the payload. -/
def maxHeaderSize : Nat := 67

/-- The largest packet that the engine sends. -/
def maxPacketSize : Nat := maxHeaderSize + maxChunkSize

def linkMtu : Nat := 1280

def ipUdpHeaderLength : Nat := 48

/-- The largest datagram that fits a link without fragments. -/
def maxDatagramSize : Nat := linkMtu - ipUdpHeaderLength

/-- The largest delta or length that an option header can express. -/
def maxField : Nat := 65804

end Coap
